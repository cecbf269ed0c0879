import LocalFlow.Service.Columns
import Mathlib.Order.WithBot
import Mathlib.Data.Nat.Digits.Defs

/-! The stages of a stop as they are recorded, their order, and the step of `_interrupt_sequence`
that records the next one. -/
namespace LocalFlow
variable {config : Config} {backend : Backend} {moment : Moment} {id : TaskId} {slot next : Slot}

section Texts

def StopKind.value : StopKind → String
  | .signal => "signal"
  | .input => "input"
  | .exec => "exec"

/-- The text of the column `interrupt_stage`. -/
def InterruptStage.value : InterruptStage → String
  | .queued => "queued"
  | .requested => "requested"
  | .stop index kind => "stop:" ++ toString index ++ ":" ++ kind.value
  | .sigkill => "sigkill"

/-- `int(text)` of a plain numeral. -/
def numeral? (text : List Char) : Option Nat :=
  if text ≠ [] ∧ text.all Char.isDigit = true then some (Nat.ofDigitChars 10 text 0) else none

/-- `_interrupted_action_index` on the recorded text; an unreadable number counts as 0. -/
def actionIndexOf (text : String) : Nat :=
  if "stop:".toList <+: text.toList then
    (numeral? ((text.toList.drop 5).takeWhile (· ≠ ':'))).getD 0
  else 0

theorem numeral_toString (n : Nat) : numeral? (Nat.toDigits 10 n) = some n := by
  have digits : (Nat.toDigits 10 n).all Char.isDigit = true := by
    rw [List.all_eq_true]
    intro c member
    exact Nat.isDigit_of_mem_toDigits (by decide) (by decide) member
  unfold numeral?
  rw [if_pos ⟨Nat.toDigits_ne_nil, digits⟩, Nat.ofDigitChars_toDigits (by decide) (by decide)]

/-- What is read back from the text of a stage is the stage. -/
theorem actionIndexOf_value (stage : InterruptStage) :
    actionIndexOf stage.value = interruptedActionIndex (some stage) := by
  cases stage with
  | queued => decide
  | requested => decide
  | sigkill => decide
  | stop index kind =>
    have text : (InterruptStage.stop index kind).value.toList =
        "stop:".toList ++ (Nat.toDigits 10 index ++ ':' :: kind.value.toList) := by
      have digits : (toString index).toList = Nat.toDigits 10 index := by
        rw [Nat.toString_eq_ofList_toDigits, String.toList_ofList]
      simp only [InterruptStage.value, String.toList_append, digits, List.append_assoc]
      rfl
    have plain : ∀ c ∈ Nat.toDigits 10 index, decide (c ≠ ':') = true := by
      intro c member
      have digit := Nat.isDigit_of_mem_toDigits (by decide) (by decide) member
      rw [decide_eq_true_eq]
      rintro rfl
      cases digit
    have field : ((InterruptStage.stop index kind).value.toList.drop 5).takeWhile (· ≠ ':') =
        Nat.toDigits 10 index := by
      have length : "stop:".toList.length = 5 := by decide
      rw [text, List.drop_left' length, List.takeWhile_append_of_pos plain,
        List.takeWhile_cons_of_neg (by simp), List.append_nil]
    unfold actionIndexOf
    rw [if_pos (text ▸ List.prefix_append _ _), field, numeral_toString]
    rfl

end Texts

section Levels

/-- The order of the stages: requested, then the actions of the strategy in turn, then sigkill. -/
def InterruptStage.level : InterruptStage → WithTop ℕ
  | .queued | .requested => (0 : ℕ)
  | .stop index _ => (index + 1 : ℕ)
  | .sigkill => ⊤

/-- A task without a stage is before all of them. -/
def stageLevel : Option InterruptStage → WithBot (WithTop ℕ)
  | none => ⊥
  | some stage => stage.level

theorem stageLevel_sigkill (stage : Option InterruptStage) :
    stageLevel stage ≤ stageLevel (some .sigkill) := by
  cases stage with
  | none => exact bot_le
  | some stage => exact WithBot.coe_le_coe.mpr le_top

theorem stageLevel_stop {i j : Nat} (a b : StopKind) (le : i ≤ j) :
    stageLevel (some (.stop i a)) ≤ stageLevel (some (.stop j b)) :=
  WithBot.coe_le_coe.mpr (WithTop.coe_le_coe.mpr (Nat.succ_le_succ le))

/-- The action a stop is resumed with is not before the recorded stage, except after sigkill. -/
theorem stageLevel_resumed {stage : Option InterruptStage} (graceful : stage ≠ some .sigkill)
    (kind : StopKind) :
    stageLevel stage ≤ stageLevel (some (.stop (interruptedActionIndex stage) kind)) := by
  cases stage with
  | none => exact bot_le
  | some stage =>
    cases stage with
    | queued | requested => exact WithBot.coe_le_coe.mpr (WithTop.coe_le_coe.mpr (Nat.zero_le _))
    | stop index => exact stageLevel_stop _ _ le_rfl
    | sigkill => exact absurd rfl graceful

end Levels

section Pace

/-- What the recorded stage says about a stop suspended at a point. -/
def SequencePoint.Paced (row : Option TaskRecord) : SequencePoint → Prop
  | .created _ _ => ∀ r, row = some r → r.interruptStage ≠ some .sigkill
  | .applying _ index _ _ | .polling _ index _ =>
    ∀ r, row = some r → ∃ kind, r.interruptStage = some (.stop index kind)
  | _ => True

/-- No stage is recorded before a stop, no stop runs for a queued task, and the recorded stage is
that of the action the stop is at. -/
structure Paced (view : View) : Prop where
  unstopped : ∀ r, view.row = some r → r.state = .queued ∨ r.state = .starting ∨ r.state = .running →
    r.interruptStage = none
  busy : view.cell.sequence.isSome = true → ∀ r, view.row = some r → r.state ≠ .queued
  point : ∀ sequence, view.cell.sequence = some sequence → sequence.point.Paced view.row

/-- The stage does not go back, and the stop keeps pace with it. -/
structure Climbs (v w : View) : Prop where
  level : ∀ new, w.row = some new →
    ∃ row, v.row = some row ∧ stageLevel row.interruptStage ≤ stageLevel new.interruptStage
  paced : Paced w

variable {u v w : View}

theorem Climbs.refl (paced : Paced v) : Climbs v v :=
  ⟨fun new found => ⟨new, found, le_rfl⟩, paced⟩

theorem Climbs.trans (first : Climbs u v) (second : Climbs v w) : Climbs u w := by
  refine ⟨fun new found => ?_, second.paced⟩
  obtain ⟨middle, isMiddle, later⟩ := second.level new found
  obtain ⟨row, isRow, early⟩ := first.level middle isMiddle
  exact ⟨row, isRow, early.trans later⟩

/-- A step that records no stage. -/
structure Mute (row new : TaskRecord) : Prop where
  stage : new.interruptStage = row.interruptStage
  unstopped : new.state = .queued ∨ new.state = .starting ∨ new.state = .running →
    row.state = .queued ∨ row.state = .starting ∨ row.state = .running
  queued : new.state = .queued → row.state = .queued

theorem Mute.refl (row : TaskRecord) : Mute row row := ⟨rfl, id, id⟩

theorem Mute.of_core {row new : TaskRecord} (same : new.core = row.core) : Mute row new := by
  have stage : new.interruptStage = row.interruptStage := congrArg (fun r => r.interruptStage) same
  have state := core_state same
  exact ⟨stage, fun before => state ▸ before, fun queued => state ▸ queued⟩

theorem SequencePoint.Paced.calm {row new : Option TaskRecord} {point : SequencePoint}
    (paced : point.Paced row)
    (calm : ∀ n, new = some n → ∃ r, row = some r ∧ n.interruptStage = r.interruptStage) :
    point.Paced new := by
  unfold SequencePoint.Paced at paced ⊢
  split at paced
  all_goals first
    | trivial
    | (intro n isNew
       obtain ⟨r, isRow, same⟩ := calm n isNew
       rw [same]
       exact paced r isRow)

/-- Points at which a stop waits for nothing it has recorded. -/
def SequencePoint.Free : SequencePoint → Prop
  | .created _ _ | .applying _ _ _ _ | .polling _ _ _ => False
  | _ => True

theorem SequencePoint.Free.paced {point : SequencePoint} (free : point.Free) (row : Option TaskRecord) :
    point.Paced row := by
  unfold SequencePoint.Paced
  split
  · exact absurd free not_false
  · exact absurd free not_false
  · exact absurd free not_false
  · trivial

/-- The row is calm, and the stop is where it was, or where nothing recorded matters. -/
theorem climbs_calm (paced : Paced v)
    (calm : ∀ new, w.row = some new → ∃ row, v.row = some row ∧ Mute row new)
    (sequence : ∀ after, w.cell.sequence = some after → ∃ before, v.cell.sequence = some before ∧
      (after.point = before.point ∨ after.point.Free)) : Climbs v w where
  level new found := by
    obtain ⟨row, isRow, same⟩ := calm new found
    exact ⟨row, isRow, by rw [same.stage]⟩
  paced := {
    unstopped := fun new found before => by
      obtain ⟨row, isRow, same⟩ := calm new found
      rw [same.stage]
      exact paced.unstopped row isRow (same.unstopped before)
    busy := fun busy new found queued => by
      obtain ⟨after, isAfter⟩ := Option.isSome_iff_exists.mp busy
      obtain ⟨before, isBefore, _⟩ := sequence after isAfter
      obtain ⟨row, isRow, same⟩ := calm new found
      exact paced.busy (by rw [isBefore]; rfl) row isRow (same.queued queued)
    point := fun after isAfter => by
      obtain ⟨before, isBefore, same | free⟩ := sequence after isAfter
      · rw [same]
        refine (paced.point before isBefore).calm (fun new found => ?_)
        obtain ⟨row, isRow, calm⟩ := calm new found
        exact ⟨row, isRow, calm.stage⟩
      · exact free.paced _ }

theorem calm_same {row new : Option TaskRecord} (same : new = row) :
    ∀ n, new = some n → ∃ r, row = some r ∧ Mute r n :=
  fun n found => ⟨n, same ▸ found, .refl n⟩

/-- A transition that writes no stage, into a terminal state or from starting to running. -/
theorem Transits.calm {expected : List TaskState} {state : TaskState} {fields : List Field}
    {override : Option TaskStatus} {row new : Option TaskRecord}
    (transits : Transits expected state fields override row new)
    (silent : ∀ stage, Field.interruptStage stage ∉ fields)
    (forward : state.terminal = true ∨ state = .running ∧ expected = [.starting]) :
    ∀ n, new = some n → ∃ r, row = some r ∧ Mute r n := by
  cases transits with
  | same => exact calm_same rfl
  | moved r status expects =>
    intro n found
    cases found
    have stage : (r.assign fields).interruptStage = r.interruptStage :=
      assign_frame r fields (fun r => r.interruptStage) (fun r field member => by
        cases field <;> first | rfl | exact absurd member (silent _))
    refine ⟨r, rfl, stage, fun before => ?_, fun queued => ?_⟩
    · obtain ended | ⟨rfl, rfl⟩ := forward
      · have now : state = .queued ∨ state = .starting ∨ state = .running := before
        obtain rfl | rfl | rfl := now <;> cases ended
      · exact .inr (.inl (List.mem_singleton.mp expects))
    · have now : state = .queued := queued
      obtain ended | ⟨running, _⟩ := forward
      · rw [now] at ended
        cases ended
      · rw [now] at running
        cases running

end Pace

section Stops

/-- The stage about to be recorded is not before the one that is. -/
def Due (stage : InterruptStage) (row : Option TaskRecord) : Prop :=
  ∀ r, row = some r → stageLevel r.interruptStage ≤ stageLevel (some stage)

/-- A task that is stopped is started. -/
def Begun (slot : Slot) (id : TaskId) : Prop := ∀ r, slot.db.getTask id = some r → r.state ≠ .queued

theorem climbs_quit (paced : Paced (slot.view id)) :
    Climbs (slot.view id) ((slot.withSequence none).view id) :=
  climbs_calm paced (calm_same rfl) (fun _ impossible => by cases impossible)

theorem climbs_record {stage : InterruptStage} {point : SequencePoint} (now : String)
    (paced : Paced (slot.view id)) (due : Due stage (slot.db.getTask id))
    (live : ∀ r, slot.db.getTask id = some r → r.state.active = true)
    (fits : ∀ r, r.interruptStage = some stage → point.Paced (some r)) (blank : point.Paced none) :
    Climbs (slot.view id)
    ((match slot.db.transition now id liveStates .stopping [.interruptStage stage] with
      | (db, .raised) => { slot with db }.withSequence none
      | (db, _) => { slot with db }.suspend point).view id) := by
  obtain ⟨raised, _⟩ | ⟨refused, unexpected⟩ | ⟨row, status, found, _, moved⟩ :=
    slot.db.transition_cases now id liveStates .stopping [.interruptStage stage] none
  · rw [raised]
    exact climbs_quit paced
  · rw [refused]
    have missing : slot.db.getTask id = none := by
      cases found : slot.db.getTask id with
      | none => rfl
      | some row => exact absurd (mem_liveStates.mpr (live row found)) (unexpected row found)
    refine ⟨fun new found =>
      ⟨new, found, le_rfl⟩, ⟨paced.unstopped, fun _ r found => ?_, fun sequence same => ?_⟩⟩
    · have isRow : slot.db.getTask id = some r := found
      rw [missing] at isRow
      cases isRow
    · cases same
      change point.Paced (slot.db.getTask id)
      rw [missing]
      exact blank
  · rw [moved]
    have isNew : ({ slot with db := slot.db.move now id .stopping [.interruptStage stage] status }.suspend
        point).db.getTask id = some (row.moved .stopping [.interruptStage stage] status) := by
      rw [Slot.db_suspend, Db.getTask_move, if_pos rfl, found]
      rfl
    refine ⟨fun new same =>
      ?_, ⟨fun new same before => ?_, fun _ new same => ?_, fun sequence same => ?_⟩⟩
    · have isRow := Option.some.inj (isNew.symm.trans same)
      exact ⟨row, found, isRow ▸ due row found⟩
    · have isRow := Option.some.inj (isNew.symm.trans same)
      rw [← isRow] at before
      simp at before
    · have isRow := Option.some.inj (isNew.symm.trans same)
      rw [← isRow]
      simp
    · cases same
      change point.Paced (Db.getTask _ id)
      rw [isNew]
      exact fits _ rfl

theorem begun_active {r : TaskRecord} (begun : Begun slot id) (found : slot.db.getTask id = some r)
    (unfinished : ¬ r.state.terminal = true) : ∀ other, slot.db.getTask id = some other →
      other.state.active = true := by
  intro other same
  rw [found] at same
  cases same
  exact (r.state.active_or.resolve_left (begun r found)).resolve_right unfinished

theorem climbs_settle (paced : Paced (slot.view id)) (begun : Begun slot id) (left : Nat) :
    Climbs (slot.view id) ((slot.settle moment id left).view id) := by
  unfold Slot.settle
  split
  · exact climbs_quit paced
  · rename_i r found
    split
    · exact climbs_quit paced
    · rename_i unfinished
      split
      · exact climbs_record moment.now paced (fun r _ => stageLevel_sigkill _)
          (begun_active begun found unfinished) (fun _ _ => trivial) trivial
      · refine ⟨fun new found => ⟨new, found, le_rfl⟩, paced.unstopped, fun _ =>
          begun, fun sequence same => ?_⟩
        cases same
        trivial

theorem climbs_nextAction (paced : Paced (slot.view id)) (begun : Begun slot id)
    (actions : List StopAction) (index : Nat)
    (due : ∀ kind, Due (.stop index kind) (slot.db.getTask id)) :
    Climbs (slot.view id) ((slot.nextAction moment id actions index).view id) := by
  unfold Slot.nextAction
  split
  · exact climbs_settle paced begun 10
  · rename_i action _
    split
    · exact climbs_quit paced
    · rename_i r found
      split
      · exact climbs_quit paced
      · rename_i unfinished
        exact climbs_record moment.now paced (due _) (begun_active begun found unfinished)
          (fun r stage other same => by
            cases same
            exact ⟨_, stage⟩) (fun _ impossible => by cases impossible)

/-- The action after the recorded one is due. -/
theorem due_next {index : Nat} {row : Option TaskRecord}
    (here : ∀ r, row = some r → ∃ kind, r.interruptStage = some (.stop index kind)) (kind : StopKind) :
    Due (.stop (index + 1) kind) row := by
  intro r found
  obtain ⟨recorded, stage⟩ := here r found
  rw [stage]
  exact stageLevel_stop _ _ (Nat.le_succ _)

theorem paced_clearAdvance (paced : Paced (slot.view id)) : Paced (slot.clearAdvance.view id) := by
  refine ⟨paced.unstopped, fun busy => paced.busy ?_, fun sequence same => ?_⟩
  · simpa [Slot.view, Slot.clearAdvance, Slot.withSequence] using busy
  · obtain ⟨before, isBefore, rfl⟩ := Option.map_eq_some_iff.mp same
    exact paced.point before isBefore

theorem climbs_pollAction (paced : Paced (slot.view id)) (begun : Begun slot id)
    (actions : List StopAction) (index : Nat) (action : StopAction) (poll : Poll)
    (here : ∀ r, slot.db.getTask id = some r → ∃ kind, r.interruptStage = some (.stop index kind)) :
    Climbs (slot.view id) ((slot.pollAction moment id actions index action poll).view id) := by
  have advanced : Climbs (slot.view id) ((slot.nextAction moment id actions (index + 1)).view id) :=
    climbs_nextAction paced begun actions _ (due_next here)
  unfold Slot.pollAction
  split
  · split
    · exact climbs_quit paced
    · split
      · exact advanced
      · split
        · have cleared : Climbs (slot.clearAdvance.view id)
              ((slot.clearAdvance.nextAction moment id actions (index + 1)).view id) :=
            climbs_nextAction (paced_clearAdvance paced) begun actions _ (due_next here)
          exact ⟨cleared.level, cleared.paced⟩
        · dsimp only
          split
          · exact advanced
          · refine ⟨fun new found => ⟨new, found, le_rfl⟩, paced.unstopped, fun _ =>
              begun, fun sequence same => ?_⟩
            cases same
            exact here
  · exact advanced

theorem climbs_stopBegin (paced : Paced (slot.view id)) (begun : Begun slot id)
    (graceful : ∀ r, slot.db.getTask id = some r → r.interruptStage ≠ some .sigkill)
    (sigint sigterm : Grace) :
    Climbs (slot.view id) ((slot.stopBegin moment id sigint sigterm).view id) := by
  unfold Slot.stopBegin
  split
  · exact climbs_quit paced
  · rename_i task found
    refine climbs_nextAction paced begun _ _ (fun kind r same => ?_)
    rw [found] at same
    cases same
    exact stageLevel_resumed (graceful task found) kind

/-- Every step of `_interrupt_sequence` records a later stage or none. -/
theorem climbs_stopStep {sequence : Sequence} {act : StopAct} (paced : Paced (slot.view id))
    (isSequence : slot.cell.sequence = some sequence)
    (stepped : slot.stopStep backend moment id sequence.point act = some next) :
    Climbs (slot.view id) (next.view id) := by
  have begun : Begun slot id :=
    paced.busy (by change slot.cell.sequence.isSome = true; rw [isSequence]; rfl)
  have here := paced.point sequence isSequence
  have confirming : ∀ result : Slot × ConfirmResult, result.1.cell = slot.cell →
      (∀ n, result.1.db.getTask id = some n → ∃ r, slot.db.getTask id = some r ∧ Mute r n) →
      Climbs (slot.view id) ((Slot.confirmed result).view id) := by
    intro result cell calm
    obtain ⟨confirm, _, isNext⟩ | ⟨_, isNext⟩ := confirmed_cases result <;> rw [isNext]
    · refine climbs_calm paced calm (fun after same => ?_)
      cases same
      exact ⟨sequence, isSequence, .inr trivial⟩
    · exact climbs_calm paced calm (fun _ impossible => by cases impossible)
  generalize sequence.point = point at stepped here
  unfold Slot.stopStep at stepped
  split at stepped
  · cases stepped
    exact climbs_stopBegin paced begun here _ _
  · rename_i actions index _ _
    obtain ⟨action, _, rfl⟩ := Option.map_eq_some_iff.mp stepped
    have polled : ∀ poll, Climbs (slot.clearAdvance.view id) ((slot.clearAdvance.pollAction moment id
        actions index action poll).view id) := fun poll =>
      climbs_pollAction (paced_clearAdvance paced) begun actions index action poll here
    exact ⟨(polled _).level, (polled _).paced⟩
  · rename_i actions index _ _
    obtain ⟨_, _, rfl⟩ := Option.map_eq_some_iff.mp stepped
    have noted : Paced ((slot.event moment id "task.stop_action_error").view id) :=
      ⟨paced.unstopped, paced.busy, paced.point⟩
    have after := @climbs_nextAction moment id _ noted begun actions (index + 1) (due_next here)
    exact ⟨after.level, after.paced⟩
  · split at stepped
    · obtain ⟨action, _, rfl⟩ := Option.map_eq_some_iff.mp stepped
      exact climbs_pollAction paced begun _ _ action _ here
    · cases stepped
  · split at stepped <;> cases stepped
    exact climbs_settle paced begun _
  · cases stepped
    exact confirming _ rfl (calm_same rfl)
  · cases stepped
    exact climbs_quit paced
  · obtain ⟨result, confirmed, rfl⟩ := Option.map_eq_some_iff.mp stepped
    refine confirming result (cell_confirmStep confirmed) ?_
    obtain same | ⟨_, _, _, _, _, _, _, _, _, transits⟩ := confirmStep_columns confirmed
    · exact calm_same same
    · exact transits.calm (by simp) (.inl rfl)
  · cases stepped
    refine climbs_calm paced (calm_same rfl) (fun after same => ⟨sequence, isSequence, .inr ?_⟩)
    change (if _ then none else some _) = some after at same
    split at same <;> cases same
    trivial
  · cases stepped

/-- Every step of one task records a later stage or none. -/
theorem climbs_taskStep {act : TaskAct} (paced : Paced (slot.view id))
    (stepped : slot.taskStep config moment id act = some next) :
    Climbs (slot.view id) (next.view id) := by
  have held : (∃ waiter tree starter, next.cell = { slot.cell with waiter, tree, starter }) →
      ∀ after, next.cell.sequence = some after → ∃ before, slot.cell.sequence = some before ∧
        (after.point = before.point ∨ after.point.Free) := by
    rintro ⟨_, _, _, isCell⟩ after same
    rw [isCell] at same
    exact ⟨after, same, .inl rfl⟩
  cases steps_taskStep stepped with
  | tree tree => exact climbs_calm paced (calm_same rfl) (held ⟨_, _, _, rfl⟩)
  | start started =>
    refine climbs_calm paced ?_ (held (cell_startStep started))
    obtain same | ⟨_, _, transits⟩ | ⟨_, _, _, _, transits⟩ := startStep_columns started
    · exact calm_same same
    · exact transits.calm (by simp) (.inr ⟨rfl, rfl⟩)
    · exact transits.calm (by simp) (.inl rfl)
  | wait waited =>
    obtain ⟨waiter, tree, isCell, _⟩ := (waited_waitStep waited).cell
    refine climbs_calm paced ?_ (held ⟨waiter, tree, slot.cell.starter, isCell⟩)
    obtain same | ⟨_, _, _, _, _, _, transits⟩ | ⟨task, code, _, _, _, _, _, _, _, _, transits⟩ :=
      waitStep_columns waited
    · exact calm_same same
    · exact transits.calm (by simp) (.inl rfl)
    · exact transits.calm (by simp) (.inl (resultState_terminal task code))
  | stop sequence isSequence stopped => exact climbs_stopStep paced isSequence stopped

theorem settle_applies {left : Nat} {after : Sequence} {actions : List StopAction} {index offset : Nat}
    {started : Seconds} (same : (slot.settle moment id left).cell.sequence = some after) :
    after.point ≠ .applying actions index offset started := by
  intro applies
  unfold Slot.settle at same
  split at same
  · cases same
  · split at same
    · cases same
    · split at same
      · unfold Slot.force at same
        split at same <;> cases same
        cases applies
      · cases same
        cases applies

/-- The sequence turns to the action it is told to turn to. -/
theorem nextAction_applies {actions actions' : List StopAction} {index index' offset : Nat}
    {started : Seconds} {after : Sequence}
    (same : (slot.nextAction moment id actions index).cell.sequence = some after)
    (applies : after.point = .applying actions' index' offset started) : index' = index := by
  unfold Slot.nextAction at same
  split at same
  · exact absurd applies (settle_applies same)
  · split at same
    · cases same
    · split at same
      · cases same
      · split at same <;> cases same
        cases applies
        rfl

/-- The action a stop begins with is the one its recorded stage names. -/
theorem stopBegin_applies {actions : List StopAction} {index offset : Nat} {started : Seconds}
    {sigint sigterm : Grace} {after : Sequence} {row : TaskRecord}
    (found : slot.db.getTask id = some row)
    (same : (slot.stopBegin moment id sigint sigterm).cell.sequence = some after)
    (applies : after.point = .applying actions index offset started) :
    index = interruptedActionIndex row.interruptStage := by
  unfold Slot.stopBegin at same
  rw [found] at same
  exact nextAction_applies same applies

end Stops

section Interrupts

/-- A request to interrupt a task that is not stopped yet records the first stage. -/
theorem climbs_interrupt (moment : Moment) (id : TaskId) (slot : Slot) (sigint sigterm : Grace)
    (paced : Paced (slot.view id)) :
    Climbs (slot.view id) ((slot.interrupt moment id sigint sigterm).1.view id) := by
  have interrupts := interrupts_interrupt moment id slot sigint sigterm
  by_cases queued : ∃ r, slot.db.getTask id = some r ∧ r.state = .queued
  · obtain ⟨r, found, isQueued⟩ := queued
    have blank : slot.cell.sequence = none := by
      cases isSequence : slot.cell.sequence with
      | none => rfl
      | some sequence =>
        have busy : slot.cell.sequence.isSome = true := by rw [isSequence]; rfl
        exact absurd isQueued (paced.busy busy r found)
    have stage : r.interruptStage = none := paced.unstopped r found (.inl isQueued)
    rw [interrupt_queued moment sigint sigterm found isQueued]
    have transits := transition_transits slot.db moment.now id [.queued] .cancelled
      [.endedAt moment.now, .interruptStage .queued] none
    generalize (slot.db.transition moment.now id [.queued] .cancelled
      [.endedAt moment.now, .interruptStage .queued]).1 = db at transits
    have sequence : ∀ after, slot.cell.sequence = some after → False := fun after same => by
      rw [blank] at same
      cases same
    refine ⟨fun new isNew =>
      ⟨r, found, ?_⟩, ⟨fun new isNew before => ?_, fun busy => ?_, fun after same =>
      absurd same (sequence after)⟩⟩
    · rw [stage]
      exact bot_le
    · have isRow : db.getTask id = some new := isNew
      rw [isRow, found] at transits
      cases transits with
      | same => exact stage
      | moved => simp at before
    · have isSome : slot.cell.sequence.isSome = true := busy
      rw [blank] at isSome
      cases isSome
  · generalize (slot.interrupt moment id sigint sigterm).1 = after at interrupts
    generalize (slot.interrupt moment id sigint sigterm).2 = raised at interrupts
    cases interrupts with
    | missing => exact .refl paced
    | queued _ _ _ was => exact absurd was queued
    | stopping r stop status _ _ found live free row cell =>
      have stage := paced.unstopped r found (.inr live)
      have isNew : ∀ new, (after.view id).row = some new →
          new = { r with stop }.moved .stopping [.interruptStage .requested] status := fun new same =>
        (Option.some.inj (row.symm.trans same)).symm
      refine ⟨fun new same =>
        ⟨r, found, ?_⟩, ⟨fun new same before => ?_, fun _ new same => ?_, fun sequence same => ?_⟩⟩
      · rw [stage]
        exact bot_le
      · rw [isNew new same] at before
        simp at before
      · rw [isNew new same]
        simp
      · have isSequence : after.cell.sequence = some sequence := same
        rw [cell] at isSequence
        cases isSequence
        intro new isRow
        rw [isNew new isRow]
        intro stage
        cases stage
    | hidden r stop found live _ row cell =>
      refine climbs_calm paced (fun new same => ⟨r, found, ?_⟩) (fun sequence same => ?_)
      · have isRow := Option.some.inj (row.symm.trans same)
        rw [← isRow]
        exact ⟨rfl, fun before => before, fun queued => queued⟩
      · have isSequence : after.cell.sequence = some sequence := same
        rw [cell] at isSequence
        exact ⟨sequence, isSequence, .inl rfl⟩
    | advanced r found _ _ row cell =>
      refine climbs_calm paced (calm_same (row.trans found.symm)) (fun sequence same => ?_)
      have isSequence : after.cell.sequence = some sequence := same
      rw [cell] at isSequence
      obtain ⟨before, isBefore, rfl⟩ := Option.map_eq_some_iff.mp isSequence
      exact ⟨before, isBefore, .inl rfl⟩

end Interrupts
end LocalFlow
