import SharWorkflow.Engine.Compensation

/-!
# Starting activities

The handler of a token that has been sent to an element (`activityStartProcessor`).

A token starts an activity under a fresh id. The activity is published and recorded, its boundary
timers are set, and the element decides how it goes on: the activity is complete at once, a job is
started for it, a join is activated, or the process ends.
-/

namespace SharWorkflow

open Concurrent

variable (lib : Lib) (ns : String) (pi : ProcessInstance) (newState : WorkflowState) (el : Element)
  (vars : Bytes)

/-! ### Timers -/

/-- When a boundary timer is due, by the value of its duration. A value of any other type makes it
due at once. -/
def boundaryDue (t : Int) : Value → Except Err Int
  | .int .int n => .ok (t + n)
  | .string d =>
    match lib.shift d t with
    | .ok due => .ok due
    | .error e => .error (.wrap "parse ISO8601 boundary timer value" e)
  | _ => .ok t

/-- The state by which a boundary timer fires: that of the activity, with the element to go to. -/
def timerState (i : Timer) : WorkflowState :=
  { newState with execute := some i.target, timer := some ⟨0, 0⟩ }

/-- A boundary timer of the activity is set. -/
def startBoundaryTimer (i : Timer) : Act Unit := do
  let v ← Act.wrap "decode boundary timer variable" (Act.ofExcept (lib.readVars vars))
  let res ← Act.wrap "evaluate boundary timer expression"
    (Act.ofExcept (lib.evalAny i.duration v))
  let t ← now
  let due ← Act.ofExcept (boundaryDue lib t res)
  let _ ← Act.wrap "publish timed execute during activity start"
    (publishWorkflowState ns .elementTimedExecute (timerState newState i) due)

/-- How long a timer catch event waits, by the value of its expression, from the time `t` on. -/
def catchEmbargo (t : Int) : Value → Except Err Int
  | .string em =>
    match lib.atoi em with
    | some v => .ok (v + t)
    | none =>
      match lib.shift em t with
      | .ok due => .ok due
      | .error e => .error (.workflowFatal e none)
  | .int .int em => .ok (em + t)
  | _ => .error (.workflowFatal
      (.text "timer embargo value could not be evaluated to an int or a duration") none)

/-- The job of a timer catch event: its execution is published, and so is its completion, which is
held back until the timer is due. -/
def startTimerCatch : Act Unit := do
  let varmap ← Act.mapError (fun e => .workflowFatal e none) (Act.ofExcept (lib.readVars vars))
  let ret ← Act.mapError (fun e => .workflowFatal e none)
    (Act.ofExcept (lib.evalAny el.execute varmap))
  let t ← now
  let embargo ← Act.ofExcept (catchEmbargo lib t ret)
  let id ← newId
  let newState := { newState with id := TrackingID.push newState.id id }
  let newState ← Act.wrap "publish timer task execute job"
    (publishWorkflowState ns .jobTimerTaskExecute newState)
  let _ ← Act.wrap "publish timer task execute complete"
    (publishWorkflowState ns .jobTimerTaskComplete newState embargo)

/-! ### Elements -/

/-- The version of the task that a service task runs: that of the definition, or the newest one.
A failed lookup other than of an unknown task goes unnoticed. -/
def taskVersion : Act String :=
  match el.version with
  | some v => return v
  | none => do
    match ← Act.attempt (getTaskSpecUID ns el.execute) with
    | .ok v => return v
    | .error e =>
      if e.is .keyNotFound then
        throw (.wrap "engine failed to get task spec id" (.workflowFatal e none))
      else return ""

/-- `engineErr` with the fields of an element, which panics when there is no element. -/
def engineErrAt {α : Type} (el : Option Element) (x : Act α) : Act α := do
  match ← Act.attempt x with
  | .ok a => return a
  | .error e =>
    let _ ← Act.deref el
    throw (.wrap "engine-error" e)

/-- What a process that reaches the end event `el` has come to. A called process goes on with its
caller. -/
def endStatus : CancellationState :=
  if pi.parentProcessId.getD "" = "" then
    if el.errors.isEmpty then .completed else .errored
  else .executing

/-- The message that a throw event sends is one of the workflow. -/
def startThrow : Act Unit := do
  let wf ← Act.wrap "get workflow for intermediate throw event" (getWorkflow ns pi.workflowId)
  if wf.messages.any fun v => v.name = el.execute then
    engineErr (startJob lib ns (.jobSendMessageExecute (pi.workflowName ++ "_" ++ el.execute))
      newState el vars)
  else
    throw (.workflowFatal (.text ("unknown workflow message name: " ++ el.execute)) none)

/-- A gateway: a join is activated, a split is complete at once. -/
def startGateway : Act Unit := do
  let gateway ← Act.deref el.gateway
  if gateway.direction = .convergent then
    let _ ← Act.wrap (fnName "activityStartProcessor" ++ " failed to activate gateway")
      (publishWorkflowState ns .jobGatewayTaskActivate { newState with state := .executing })
  else
    let _ ← Act.wrap "complete activity for exclusive gateway"
      (completeActivity ns { newState with state := .executing })

/-- What the element does with the activity `newState`, for the token `vars` it came with. The
state is returned as it is afterwards, with what the process has come to. -/
def startElement : Act (WorkflowState × CancellationState) :=
  match el.type with
  | .startEvent => do
    let initVars ← Act.wrap "get output vars for start event"
      (Act.ofCall (lib.outputVars .listed vars [] el.outputTransform.field))
    let state ← Act.wrap "start event complete activity"
      (completeActivity ns { newState with state := .executing, vars := initVars })
    return (state, .executing)
  | .gateway => do
    startGateway ns newState el
    return (newState, .executing)
  | .serviceTask => do
    let version ← taskVersion ns el
    engineErr (startJob lib ns (.jobServiceTaskExecute version) newState
      { el with version := some version } vars)
    return (newState, .executing)
  | .userTask => do
    engineErr (startJob lib ns .jobUserTaskExecute newState el vars)
    return (newState, .executing)
  | .manualTask => do
    engineErr (startJob lib ns .jobManualTaskExecute newState el vars)
    return (newState, .executing)
  | .messageIntermediateThrowEvent => do
    startThrow lib ns pi newState el vars
    return (newState, .executing)
  | .callActivity => do
    engineErr (startJob lib ns .jobLaunchExecute newState el vars)
    return (newState, .executing)
  | .messageIntermediateCatchEvent => do
    engineErr (startJob lib ns .jobAwaitMessageExecute
      { newState with execute := some el.execute, condition := some el.msg } el newState.vars)
    return (newState, .executing)
  | .timerIntermediateCatchEvent => do
    startTimerCatch lib ns newState el vars
    return (newState, .executing)
  | .endEvent => do
    let status := endStatus pi el
    let state ← Act.wrap "complete activity for end event"
      (completeActivity ns { newState with state := status })
    return (state, status)
  | .compensateEndEvent => do
    Act.wrap "initializing compensation" (compensate ns newState)
    return (newState, .executing)
  | _ => do
    -- link throw events, and elements the engine does not support, are complete at once
    let state ← Act.wrap "default complete activity"
      (completeActivity ns { newState with state := .executing })
    return (state, .executing)

/-- The variables of a completed process: those of the output transform of its end event, if it has
one. -/
def finalVars (status : CancellationState) (vars : Bytes) (el : Element) : Act Bytes :=
  if status = .completed ∧ ¬ el.outputTransform.entries.isEmpty then
    Act.wrap "transform output vars"
      (Act.ofCall (lib.outputVars .listed vars [] el.outputTransform.field))
  else return vars

/-- The process has ended, and is published as complete. -/
def completeProcess (status : CancellationState) (el : Element) : Act Unit :=
  Act.when (status = .completed ∨ status = .errored ∨ status = .terminated) do
    let vars ← finalVars lib status newState.vars el
    let _ ← engineErr (publishWorkflowState ns .processComplete { newState with
      id := [pi.processInstanceId]
      state := status
      error := el.error
      vars := vars })

/-- The element of a token. A forced traversal passes through it without processing it. -/
def startedElement (traverseOnly : Bool) (el : Option Element) : Act (Option Element) :=
  if traverseOnly then do
    let el ← Act.deref el
    return some { el with type := .other "forceTraversal" }
  else return el

/-- The activity is published and recorded, and the traversal that led to it is complete. -/
def announceActivity (traversal newState : WorkflowState) (el : Option Element) :
    Act WorkflowState := do
  let newState ← engineErrAt el (publishWorkflowState ns .activityExecute newState)
  engineErrAt el (recordHistoryActivityExecute ns newState)
  let _ ← engineErrAt el (publishWorkflowState ns .traversalComplete traversal)
  return newState

/-- `activityStartProcessor`. -/
def activityStartProcessor (ns newActivityID : String) (traversal : WorkflowState)
    (traverseOnly : Bool := false) : Act Unit := do
  let some pi ← engineErr (Act.optional [.processInstanceNotFound, .keyNotFound]
    (getProcessInstance ns traversal.processInstanceId)) | return ()
  let workflow ← engineErr (getWorkflow ns pi.workflowId)
  let el ← startedElement traverseOnly ((elementTable workflow).lookup traversal.elementId)
  let newState ← announceActivity ns traversal
    { traversal with id := (TrackingID.pop traversal.id).push newActivityID } el
  let el ← Act.deref el
  el.boundaryTimer.forM (startBoundaryTimer lib ns newState traversal.vars)
  let (newState, status) ← startElement lib ns pi newState el traversal.vars
  completeProcess lib ns pi newState status el

/-- The handler of `processTraversals`. A fatal error is logged, and the message acknowledged. -/
def processTraversals (traversal : WorkflowState) : Handler Bool := do
  let some _ ← Act.acking false (Act.optional [.executionNotFound, .processInstanceNotFound]
    (hasValidProcess ns traversal.processInstanceId traversal.executionId)) | return true
  let activityID ← Act.acking false newId
  match ← Act.acking false (Act.attempt (activityStartProcessor lib ns activityID traversal)) with
  | .ok _ => return true
  | .error e =>
    if e.isWorkflowFatal then
      Act.acking false (logError "workflow fatally terminated whilst processing activity")
      return true
    else throw (false, .wrap "process event" e)

end SharWorkflow
