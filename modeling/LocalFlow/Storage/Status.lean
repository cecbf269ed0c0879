import LocalFlow.Models

/-! The status shown for a task, derived from the snapshot its plugin left at submission. The
snapshot is arbitrary JSON, so the lookup raises when a table is not a dictionary or a key cannot
be hashed. -/
namespace LocalFlow

def coreStatus : TaskState → TaskStatus
  | .queued => ⟨"queued", "等待", "neutral", false⟩
  | .starting => ⟨"starting", "启动中", "info", false⟩
  | .running => ⟨"running", "运行中", "info", false⟩
  | .stopping => ⟨"stopping", "退出中", "warning", false⟩
  | .succeeded => ⟨"succeeded", "完成", "success", true⟩
  | .failed => ⟨"failed", "失败", "danger", true⟩
  | .cancelled => ⟨"cancelled", "已中断", "warning", true⟩
  | .lost => ⟨"lost", "状态丢失", "danger", true⟩

/-- `core.get(key, core[state.value])`, keeping the key that was looked up. -/
def coreDefinition (key : Json) (state : TaskState) : TaskStatus :=
  match key with
  | .str k =>
    { coreStatus ((TaskState.all.find? (fun s => s.value = k)).getD state) with key := key.text }
  | _ => { coreStatus state with key := key.text }

/-- The status key: the lifecycle table before the end, the result table after it. -/
def statusKey (snapshot : Object) (state : TaskState) (exitCode : Option Int)
    (stage : Option InterruptStage) : Option Json :=
  let own := Json.str state.value
  match state with
  | .queued | .starting | .running | .stopping | .lost => do
    let lifecycle ← ((Json.get? snapshot "lifecycle_statuses").getD (.obj [])).asObject?
    some ((Json.get? lifecycle state.value).getD own)
  | .succeeded | .failed =>
    if stage.isSome then
      some ((Json.get? snapshot "interrupt_status").getD (.str "cancelled"))
    else do
      let rules ← ((Json.get? snapshot "result_statuses").getD (.obj [])).asObject?
      let code := (exitCode.elim Json.null Json.int).text
      some ((Json.get? rules code).getD ((Json.get? rules "default").getD own))
  | .cancelled => some ((Json.get? snapshot "interrupt_status").getD (.str "cancelled"))

/-- `_display_status`; `none` is the `AttributeError` or `TypeError` it raises. -/
def displayStatus (snapshot : Object) (state : TaskState) (exitCode : Option Int := none)
    (stage : Option InterruptStage := none) : Option TaskStatus := do
  let key ← statusKey snapshot state exitCode stage
  let statuses ← ((Json.get? snapshot "statuses").getD (.obj [])).asObject?
  if key.hashable then
    let found :=
      match key with
      | .str k => Json.get? statuses k
      | _ => none
    match found with
    | none => some (coreDefinition key state)
    | some (.obj definition) =>
      some {
        key := key.text
        label := ((Json.get? definition "label").getD key).text
        tone := ((Json.get? definition "tone").getD (.str "neutral")).text
        finished := ((Json.get? definition "finished").getD (.bool state.terminal)).truthy }
    | some _ => some (coreStatus state)
  else none

/-- Snapshots whose status can be shown in every state, as every plugin's can. -/
def Displayable (snapshot : Object) : Prop :=
  ∀ state exitCode stage, (displayStatus snapshot state exitCode stage).isSome

theorem displayable_nil : Displayable [] := by
  intro state exitCode stage
  cases state <;> cases stage <;> rfl

end LocalFlow
