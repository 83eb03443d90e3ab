import SharWorkflow.Engine.Boundary
import SharWorkflow.Engine.Dispatch

/-!
# Messages about executions

The handlers of `engine.go` for the messages that tell how an execution or a process instance is
doing, and the destruction of process instances that some of them lead to.

* `track`: the tracking bucket holds the last state of each execution.
* `processWorkflowEvents`, `processGeneralAbort`: the end of an execution, and the order to abort
  one.
* `tearDownWorkflow`: all process instances of an execution in a fatal state are destroyed.
* `processFatalError`: a fatal error tears down the workflow, or is kept for a retry.
* `Consumer`: which consumers a message of a launch goes to.
-/

namespace SharWorkflow

open Concurrent

variable (ns : String) (subject : Subject) (state : WorkflowState)

/-- What the tracking of a message is about. -/
inductive Tracked
  | execute
  | complete
  deriving DecidableEq, Repr

/-- The subjects that `track` takes notice of. -/
def Subject.tracked : Subject → Option Tracked
  | executionExecute | processExecute | traversalExecute | activityExecute
  | jobServiceTaskExecute _ | jobUserTaskExecute | jobManualTaskExecute | jobSendMessageExecute _
  | jobAwaitMessageExecute | jobLaunchExecute | jobTimerTaskExecute | jobGatewayTaskExecute =>
    some .execute
  | executionComplete | processComplete | traversalComplete | activityComplete
  | jobServiceTaskComplete | jobUserTaskComplete | jobManualTaskComplete | jobSendMessageComplete
  | jobAwaitMessageComplete | jobLaunchComplete | jobTimerTaskComplete =>
    some .complete
  | _ => none

/-- `track`, for a message with the given state. -/
def track (st : WorkflowState) : Handler Bool := do
  Act.acking false (nsKVs ns)
  match subject.tracked with
  | some .execute =>
    Act.acking false (Act.wrap "save tracking information"
      (saveObj ⟨ns, .wfTracking, st.executionId⟩ st))
    return true
  | some .complete =>
    Act.acking false (Act.wrap "delete workflow instance upon completion"
      (kvDelete ⟨ns, .wfTracking, st.executionId⟩))
    return true
  | none => return true

/-- The handler of `processWorkflowEvents`. -/
def processWorkflowEvents (job : WorkflowState) : Handler Bool := do
  if subject = .executionComplete then
    let some _ ← Act.acking false (Act.optional [.executionNotFound, .processInstanceNotFound]
      (hasValidExecution ns job.executionId)) | return true
    Act.acking false (Act.wrap "destroy process instance whilst processing workflow events"
      (xDestroyProcessInstance ns job))
    return true
  else return true

/-- The handler of `processGeneralAbort`. -/
def processGeneralAbort : Handler Bool := do
  if subject = .executionAbort then
    Act.acking false (Act.wrap "delete process instance during general abort processor"
      (xDestroyProcessInstance ns state))
    return true
  else return true

/-- The loop of `tearDownWorkflow`. A failure to destroy a process instance is logged. -/
def destroyAll (executionId : String) (processInstanceIds : List String) : Act Unit :=
  processInstanceIds.forM fun processInstanceId => do
    match ← Act.attempt (destroyProcessInstance ns { state with state := .terminated }
      processInstanceId executionId) with
    | .ok _ => return ()
    | .error _ => logError "failed destroying process instance"

/-- The job of an activity in a fatal state is aborted, if it has one. -/
def abortFatalJob : Act WorkflowState :=
  if state.elementType = .serviceTask ∨ state.elementType = .messageIntermediateCatchEvent then
    Act.wrap "publish abort task for handle fatal workflow error"
      (publishWorkflowState ns .jobServiceTaskAbort state)
  else return state

/-- `tearDownWorkflow`. -/
def tearDownWorkflow : Handler Bool := do
  let state ← Act.acking false (abortFatalJob ns state)
  let execution ← Act.acking false (Act.wrap "error retrieving execution when processing fatal err"
    (getExecution ns state.executionId))
  Act.acking false (destroyAll ns state execution.executionId execution.processInstanceId)
  return true

/-- The handler of `processFatalError`. -/
def processFatalError (fatalErr : FatalError) : Handler Bool :=
  match fatalErr.handlingStrategy with
  | .tearDown => tearDownWorkflow ns fatalErr.workflowState
  | .pause => persistFatalError ns fatalErr

/-! ### Consumers -/

/-- The consumers that take the messages of a launch. -/
inductive Consumer
  | traversal
  | tracking
  | workflowEvents
  | generalAbort
  deriving DecidableEq, Repr

/-- The subjects of a consumer. -/
def Consumer.takes : Consumer → Subject → Bool
  | traversal, subject => subject = .traversalExecute
  | tracking, _ => true
  | workflowEvents, subject =>
    subject = .executionExecute || subject = .executionComplete || subject = .executionAbort ||
      subject = .executionTerminated
  | generalAbort, subject => subject = .executionAbort || subject = .activityAbort

/-- The handler of a consumer. -/
def Consumer.handler (lib : Lib) (ns : String) (subject : Subject) (state : WorkflowState) :
    Consumer → Handler Bool
  | traversal => processTraversals lib ns state
  | tracking => track ns subject state
  | workflowEvents => processWorkflowEvents ns subject state
  | generalAbort => processGeneralAbort ns subject state

end SharWorkflow
