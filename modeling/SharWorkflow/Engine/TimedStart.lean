import SharWorkflow.Engine.Launch

/-!
# Timed starts

`timedExecuteProcessor` of `engine.go`, the handler of the messages of a timed start event, and what
`listenForTimer` makes of its answer.

A workflow with a timed start event is stored together with a first message for it. The message
carries when the timer has last fired, and how often. When the timer fires, a process is started and
the next message is published; when it is not yet due, the message is handed back with a delay.

* `WorkflowTimerDefinition.spent`, `due`, `fireNext`: what the definition says about a message that
  is received at a given time. The arithmetic is that of 64-bit integers.
* `fireTimedStart`: the start of a process.
* `timedExecute`: the outcome when all calls succeed; any other end is an answer of its own.
* `timedExecuteProcessor`, `TimedAnswer.settle`: the answer, and what becomes of the message.
-/

namespace SharWorkflow

open Concurrent

variable (lib : Lib) (ns : String) (definition : WorkflowTimerDefinition)

/-- The result of `timedExecuteProcessor`. -/
structure TimedAnswer where
  ack : Bool
  delay : Int64 := 0
  error : Option Err := none

/-- How a message is dealt with when no call fails: a process is started, the message comes too
early, or there is nothing to do. -/
inductive TimedOutcome
  | fired
  | declined (delay : Int64)
  | spent
  deriving DecidableEq

/-- The answer for an outcome. -/
def TimedOutcome.answer : TimedOutcome → TimedAnswer
  | fired => { ack := true }
  | declined delay => { ack := false, delay := delay }
  | spent => { ack := true }

namespace WorkflowTimerDefinition

/-- The timer has fired as often as it should. -/
def spent (count : Int64) : Bool :=
  definition.type = .duration ∧ definition.repeat_ ≠ 0 ∧ count ≥ definition.repeat_

/-- The timer fires. -/
def due (lastFired now : Int64) : Bool :=
  match definition.type with
  | .fixed => definition.value ≤ now
  | .duration => now - lastFired ≥ definition.value

/-- `fireNext`. -/
def fireNext (lastFired : Int64) : Int64 :=
  lastFired + definition.value * 2

/-- What is done about a timer that is not due. A fixed date is not waited for. -/
def early (lastFired now : Int64) : TimedOutcome :=
  match definition.type with
  | .fixed => .spent
  | .duration => .declined (definition.fireNext lastFired - now)

end WorkflowTimerDefinition

/-- The next message of a timer that fires. -/
def WorkflowState.nextTimer (state : WorkflowState) (now count : Int64) : WorkflowState :=
  { state with timer := some ⟨now.toInt, (count + 1).toInt⟩ }

/-- The launch of a process by a timer. -/
def timedLaunch (wf : Workflow) (state : WorkflowState) (executionId : String) : Launch where
  workflowName := wf.name
  wfID := state.workflowId
  executionId := executionId
  headers := wf.autoLaunchHeaders

/-- The process is started, and the next message is published. -/
def fireTimedStart (wf : Workflow) (el : Element)
    (state newTimer : WorkflowState) (fireNext : Int64) : ExceptT TimedAnswer P Unit := do
  let notCreated e : TimedAnswer :=
    { ack := false, error := some (.wrap "creating timed workflow instance" e) }
  let exec ← Act.ending notCreated (createExecution ns state.workflowId state.workflowName)
  let pi ← Act.ending notCreated
    (createProcessInstance ns (timedLaunch wf state exec.executionId) state.processId)
  let state := { state with
    executionId := pi.executionId
    processInstanceId := pi.processInstanceId }
  let processWfState := { state with
    id := (TrackingID.push [] state.executionId).push state.processInstanceId }
  let processWfState ← Act.ending (fun _ => { ack := false })
    (publishWorkflowState ns .processExecute processWfState)
  Act.ending
    (fun e => { ack := false, error := some (.wrap "publish initial traversal" e) })
    (recordHistoryProcessStart ns processWfState)
  let vars ← Act.ending (fun _ => { ack := false })
    (Act.ofCall (lib.outputVars .listed newTimer.vars newTimer.vars el.outputTransform.field))
  let id ← Act.ending (fun _ => { ack := false }) newId
  let _ ← Act.ending (fun _ => { ack := false })
    (traverse lib ns [id] el.outbound (elementTable wf) state)
  let _ ← Act.ending (fun _ => { ack := false, delay := fireNext })
    (publishWorkflowState ns .timedExecute { newTimer with vars := vars })

/-- `timedExecuteProcessor` for a message that is received at the time `now`, up to its answer. An
early return because of a failed call is an answer as well. -/
def timedExecute (now : Int64) (state : WorkflowState) : ExceptT TimedAnswer P TimedOutcome := do
  let wf ← Act.ending
    (fun e => { ack := true, error := some (.wrap "get timer proto workflow" e) })
    (getWorkflow ns state.workflowId)
  -- a message without a timer, or for an element without one, is a nil pointer
  let timer ← Act.ending (fun _ => { ack := false }) (Act.deref state.timer)
  let el ← Act.ending (fun _ => { ack := false })
    (Act.deref ((elementTable wf).lookup state.elementId))
  let definition ← Act.ending (fun _ => { ack := false }) (Act.deref el.timer)
  let lastFired := Int64.ofInt timer.lastFired
  let count := Int64.ofInt timer.count
  if definition.spent count then return .spent
  else if definition.due lastFired now then
    fireTimedStart lib ns wf el state (state.nextTimer now count) (definition.fireNext lastFired)
    return .fired
  else return definition.early lastFired now

/-- `timedExecuteProcessor`. -/
def timedExecuteProcessor (now : Int64) (state : WorkflowState) : P TimedAnswer :=
  (timedExecute lib ns now state).run.bind fun
    | .ok outcome => .ret outcome.answer
    | .error answer => .ret answer

/-- What becomes of the message of a timed start: it is acknowledged, handed back for a while,
handed back at once, or left to be delivered again. -/
inductive TimedSettlement
  | acked
  | nakWithDelay (delay : Int64)
  | nak
  | kept
  deriving DecidableEq

/-- `listenForTimer`, after the call of `timedExecuteProcessor`. -/
def TimedAnswer.settle (answer : TimedAnswer) : TimedSettlement :=
  match answer.error with
  | some e => if e.isWorkflowFatal then .acked else .kept
  | none =>
    if answer.ack then .acked
    else if answer.delay > 0 then .nakWithDelay answer.delay
    else .nak

end SharWorkflow
