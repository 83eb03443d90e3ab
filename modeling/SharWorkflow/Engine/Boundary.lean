import SharWorkflow.Engine.Activity

/-!
# Boundary events

The ways in which a token leaves an activity other than by its completion.

* `boundaryTimerFired`: the branch of `listenForTimer` for the boundary timer of an activity. The
  token traverses to the target of the timer, and the activity is aborted.
* `handleWorkflowError`: a client reports an error of a job. If the activity catches the error, a
  new token is sent to the target of the error boundary event, and the job is aborted; an error that
  the workflow does not know ends the process instance.
* `persistFatalError`, `getFatalErrors`, `retryActivity`: a job that has failed
  for good is kept, can be asked for, and may be started again.
-/

namespace SharWorkflow

open Concurrent

variable (lib : Lib) (ns : String) (state : WorkflowState)

/-! ### Timers -/

/-- How the processing of a timer message ends early: the message is acknowledged, it is left to be
delivered again, or the consumer that fetched it stops. -/
inductive TimerEnd
  | acked
  | kept
  | stopped
  deriving DecidableEq, Repr

/-- The process instance of a timer, which is done with when there is none. Any other failure of the
lookup is a nil pointer in what follows. -/
def timerInstance : ExceptT TimerEnd P ProcessInstance := do
  let found ← Act.ending (fun _ => .kept)
    (Act.attempt (getProcessInstance ns state.processInstanceId))
  match found with
  | .ok pi => return pi
  | .error e =>
    if e.is .processInstanceNotFound then throw .acked
    else Act.ending (fun _ => .kept) Act.panic

/-- The single branch that a boundary timer takes. -/
def timerTargets (target : String) : Targets :=
  { target := [{ id := "timer-target", target := target }] }

/-- The boundary timer branch of `listenForTimer`. The execution is looked up in the namespace of
the listener, everything else in the one of the message. The message is acknowledged when it
returns. The consumer stops when the history has no entry of the activity (`unrecorded`). -/
def boundaryTimerFired (listenerNs ns : String) (state : WorkflowState)
    (unrecorded : Err → TimerEnd := fun _ => .stopped) : ExceptT TimerEnd P Unit := do
  let _ ← Act.ending (fun _ => .kept) (hasValidExecution listenerNs state.executionId)
  let pi ← timerInstance ns state
  let wf ← Act.ending (fun _ => .kept) (getWorkflow ns pi.workflowId)
  let _ ← Act.ending unrecorded
    (getProcessHistoryItem ns state.processInstanceId (TrackingID.ID state.id) .activityExecute)
  let target ← Act.ending (fun _ => .kept) (Act.deref state.execute)
  let state ← Act.ending (fun _ => .kept)
    (traverse lib ns (TrackingID.pop state.id) (some (timerTargets target)) (elementTable wf) state)
  let _ ← Act.ending (fun _ => .kept) (publishWorkflowState ns .activityAbort state)

/-- What becomes of a timer message: it is acknowledged, handed back until it is due, left to be
delivered again, or left by a consumer that stops. -/
inductive TimerSettled
  | acked
  | delayed
  | kept
  | stopped
  deriving DecidableEq, Repr

/-- `listenForTimer`, for the message of a boundary timer that is received at the given time. -/
def listenForElementTimer (listenerNs : String) (time : Int64) (ns : String)
    (embargo : Int64) (state : WorkflowState) : P TimerSettled :=
  if embargo ≠ 0 ∧ embargo - time > 0 then .ret .delayed
  else (boundaryTimerFired lib listenerNs ns state).run.bind fun
    | .ok _ => .ret .acked
    | .error .acked => .ret .acked
    | .error .kept => .ret .kept
    | .error .stopped => .ret .stopped

/-! ### Errors -/

/-- `deleteExecution`. -/
def deleteExecution : Act Unit := do
  nsKVs ns
  let _ ← Act.wrap "delete workflow instance"
    (Act.optional [.keyNotFound] (kvDelete ⟨ns, .wfExecution, state.executionId⟩))
  let _ ← Act.wrap "delete workflow tracking"
    (Act.optional [.keyNotFound] (kvDelete ⟨ns, .wfTracking, state.executionId⟩))
  let _ ← Act.wrap "send workflow terminate message"
    (publishWorkflowState ns .executionTerminated state)

/-- The process instance of a state, unless it or anything it rests on is missing. -/
def instanceOrMissing : Act (Option ProcessInstance) :=
  Act.wrap "x destroy process instance, get process instance"
    (Act.optional Err.integrityErrors (getProcessInstance ns state.processInstanceId))

/-- `xDestroyProcessInstance`. The lookup of the workflow at its end is for the log only. -/
def xDestroyProcessInstance : Act Unit := do
  nsKVs ns
  let execution ← Act.wrap "x destroy process instance, get execution"
    (getExecution ns state.executionId)
  let some pi ← instanceOrMissing ns state | return ()
  Act.wrap "x destroy process instance, kill process instance"
    (destroyProcessInstance ns state pi.processInstanceId execution.executionId)
  Act.when (execution.workflowId ≠ "") do
    let _ ← Act.attempt (loadObj ⟨ns, .wf, execution.workflowId⟩)
  Act.wrap "delete workflow state whilst destroying execution"
    (deleteExecution ns (if state.error.isSome then { state with state := .errored } else state))

/-- `CancelProcessInstance`. -/
def cancelProcessInstance : Act Unit :=
  if state.state = .executing then
    throw (.wrap "executing is an invalid cancellation state" (.sentinel .invalidState))
  else
    Act.mapError (fun _ => .wrap "cancel workflow instance failed" (.sentinel .cancelFailed))
      (xDestroyProcessInstance ns state)

/-- An error code that the workflow does not know: the job is aborted and its process instance is
cancelled. -/
def haltWorkflow (ns errorCode : String) (state : WorkflowState) : Act Unit := do
  let werr : Err := .workflowFatal (.wrap ("workflow-fatal: can't handle error code " ++
    errorCode ++ " as the workflow doesn't support it") (.sentinel .workflowErrorNotFound)) none
  let state ← Act.mapError (fun _ => .wrap "cencel state" werr)
    (publishWorkflowState ns .jobServiceTaskAbort state)
  Act.mapError (fun _ => .wrap "cancel workflow instance" werr)
    (cancelProcessInstance ns { state with
      state := .errored
      error := some ⟨"UNKNOWN", "UNKNOWN", errorCode⟩ })
  throw (.wrap "workflow halted" werr)

/-- The error that an id of a boundary event stands for: the last one of that id. -/
def errorById (wf : Workflow) (errorId : String) : Option Error :=
  wf.errors.reverse.find? fun v => v.id = errorId

/-- The boundary event that catches an error code: the first one for an error with that code. A
boundary event for an error that the workflow does not have makes the lookup panic (`none`). -/
def caughtError (wf : Workflow) (errorCode : String) : List CatchError → Option (Option CatchError)
  | [] => some none
  | v :: rest =>
    match errorById wf v.errorId with
    | none => none
    | some wfErr => if errorCode = wfErr.code then some (some v) else caughtError wf errorCode rest

/-- The states that `HandleWorkflowError` publishes are written from scratch, with the ids of the
job's state. -/
def errorState (wf : Workflow) (state : WorkflowState) (target : Element) (id : TrackingID)
    (vars : Bytes) : WorkflowState where
  elementType := target.type
  elementId := target.id
  elementName := target.name
  workflowId := state.workflowId
  executionId := state.executionId
  id := id
  vars := vars
  workflowName := wf.name
  processInstanceId := state.processInstanceId
  processId := state.processId

/-- The end of `HandleWorkflowError`, for an error that the boundary event `caught` catches. -/
def redirectError (inVars : Bytes) (state : WorkflowState) (wf : Workflow)
    (caught : CatchError) : Act Unit := do
  let activityStart ← Act.wrap "get activity start state for handle workflow error"
    (getProcessHistoryItem ns state.processInstanceId (TrackingID.ID (TrackingID.pop state.id))
      .activityExecute)
  let vars ← Act.mapError (fun e => .workflowFatal e none)
    (Act.ofCall (lib.outputVars .listed inVars activityStart.vars caught.outputTransform.field))
  let target ← Act.deref ((elementTable wf).lookup caught.target)
  let _ ← Act.wrap "publish traversal for handle workflow error"
    (publishWorkflowState ns .traversalExecute
      (errorState wf state target (TrackingID.pop (TrackingID.pop state.id)) vars))
  let _ ← Act.wrap "publish abort task for handle workflow error"
    (publishWorkflowState ns .jobServiceTaskAbort (errorState wf state target state.id state.vars))

/-- `HandleWorkflowError`. -/
def handleWorkflowError (ns errorCode : String) (inVars : Bytes)
    (state : WorkflowState) : Act Unit := do
  let wf ← Act.wrap "get workflow definition for handle workflow error"
    (getWorkflow ns state.workflowId)
  if wf.errors.any fun v => v.code = errorCode then
    let el ← Act.deref ((elementTable wf).lookup state.elementId)
    let caught ← Act.deref (caughtError wf errorCode el.errors)
    match caught with
    | none => throw (.sentinel .unhandledWorkflowError)
    | some caught => redirectError lib ns inVars state wf caught
  else haltWorkflow ns errorCode state

/-! ### Retries -/

/-- `fatalErrorKey`. -/
def fatalErrorKey : String :=
  state.workflowName ++ "." ++ state.workflowId ++ "." ++ state.executionId ++ "." ++
    state.processInstanceId ++ "." ++ state.elementId

/-- `PersistFatalError`. -/
def persistFatalError (ns : String) (fatalError : FatalError) : Handler Bool := do
  Act.acking false (Act.wrap ("persistFatalError get KVs for ns " ++ ns) (kvsFor ns))
  Act.acking false (Act.wrap "save fatal error"
    (saveObj ⟨ns, .wfFatalError, fatalErrorKey fatalError.workflowState⟩ fatalError))
  return true

/-- What a function has sent on the channel of its results, and the error that it has sent. -/
structure Stream (α : Type) where
  sent : List α
  error : Option Err := none

/-- The stored fatal errors are sent, until one cannot be loaded. -/
def streamFatalErrors (ns : String) : List String → P (Stream FatalError)
  | [] => .ret { sent := [] }
  | matchingKey :: keys => (loadObj ⟨ns, .wfFatalError, matchingKey⟩).run.bind fun
      | .error e => .ret { sent := [], error := some (.wrap "load fatal errors" e) }
      | .ok fatalErr => (streamFatalErrors ns keys).bind fun rest =>
          .ret { rest with sent := fatalErr :: rest.sent }

/-- `GetFatalErrors`. -/
def getFatalErrors (ns keyPrefix : String) : P (Stream FatalError) :=
  (Act.wrap "get kvs for fatal errors" (kvsFor ns)).run.bind fun
    | .error e => .ret { sent := [], error := some e }
    | .ok _ => (Act.wrap "get fatal errors"
        (keyPrefixSearchLive ns .wfFatalError keyPrefix)).run.bind fun
      | .error e => .ret { sent := [], error := some e }
      | .ok matchingKeys => streamFatalErrors ns matchingKeys

/-- `RetryActivity`. The stored state is published, with the variables of the given one. -/
def retryActivity : Act Unit := do
  Act.wrap "get kvs for fatal errors" (kvsFor ns)
  let fatalErr ← Act.wrap "unable to find fatal errored workflow to retry"
    (loadObj ⟨ns, .wfFatalError, fatalErrorKey state⟩)
  let _ ← Act.wrap "failed publishing to job retry"
    (publishWorkflowState ns .jobRetry
      { FatalError.workflowState fatalErr with vars := state.vars })

/-- `DeleteFatalError`. -/
def deleteFatalError : Act Unit := do
  Act.wrap "get kvs for delete fatal error" (kvsFor ns)
  Act.wrap "delete fatal error" (delete ⟨ns, .wfFatalError, fatalErrorKey state⟩)

end SharWorkflow
