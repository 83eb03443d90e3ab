import Mathlib.Algebra.Group.Nat.Defs
import SharWorkflow.Nats.Process

/-!
# The client

How a client handles a job: `ClientProcessFn` of the client library, the functions that the client
gives to it, and its function `backoff`.

A client handles one message at a time, and makes each call at most once for a message. So what the
client is told from outside is a record of answers (`Answers`), and the handling of a message is a
function of the message and the answers. Its value is the list of what the client does, in this
order (`Effect`), with a result unless the client panics (`Handling`). The results of the calls that
settle a message only ever reach the log.

* `clientProcessFn`: a service task is executed and completed, an error of the workflow is reported
  to the server, and a panic of the service function is turned into a fatal error.
* `backoff`: the message is handed back with a delay, or terminated after its last attempt, when the
  action for this case is taken.
* `processJob`: the dispatcher with these two functions.
-/

namespace SharWorkflow

/-! ### What a client does -/

/-- What a client does on behalf of a message. -/
inductive Effect
  | executeServiceTask
  | executeSender
  | completeServiceTask (trackingID : String) (vars : Bytes) (compensating : Bool)
  | completeSendMessage (trackingID : String)
  | handleWorkflowError (trackingID errorCode : String) (vars : Bytes)
  | handleWorkflowFatalError (state : WorkflowState)
  | cancelProcessInstance (processInstanceId : String) (error : Option Error)
  | backoff
  | notifyRetryExceeded
  | ack
  | nak
  | nakWithDelay (offset : Int)
  | term

/-- What a handling does, and its result unless it panics. -/
structure Handling (α : Type) where
  effects : List Effect
  result : Option α

namespace Handling

variable {α β : Type}

instance : Monad Handling where
  pure a := ⟨[], some a⟩
  bind x f :=
    match x.result with
    | none => ⟨x.effects, none⟩
    | some a => ⟨x.effects ++ (f a).effects, (f a).result⟩

/-- One effect. -/
def emit (e : Effect) : Handling Unit := ⟨[e], some ()⟩

/-- A panic. -/
def panic : Handling α := ⟨[], none⟩

/-- A pointer is dereferenced. -/
def deref : Option α → Handling α
  | none => panic
  | some a => pure a

/-- What is deferred happens after a panic as well. -/
def deferring (x : Handling α) (deferred : List Effect) : Handling α :=
  ⟨x.effects ++ deferred, x.result⟩

end Handling

open Handling

/-! ### What a client is told -/

/-- The value of a panic: an error or anything else. -/
inductive PanicValue
  | error (e : Err)
  | other

/-- How a service function ends. The pointer to its variables may be nil. -/
inductive Outcome
  | returned (vars : Option Vars)
  | failed (vars : Option Vars) (e : Err)
  | panicked (value : PanicValue)

/-- What the client is told while it handles a message: the answers of the server and of NATS, the
functions it has registered and what they come to, and the clock. `parseFloat` is that of the
library. -/
structure Answers where
  lib : Lib
  parseFloat : String → Option Value
  noRecovery : Bool := false
  now : Int64
  /-- the time since the job was published -/
  elapsed : Int64
  compatible : Except Err Unit
  getJob : String → Except Err WorkflowState
  serviceTasks : String → Bool
  compensationVariables : Except Err Unit
  outcome : Outcome
  handleWorkflowError : String → Except Err Bool
  completeServiceTask : Except Err Unit
  senders : String → Bool
  sent : Except Err Unit
  completeSendMessage : Except Err Unit
  numDelivered : Except Err Nat
  getWorkflow : String → Except Err Workflow

/-- A message with a job. Its data is a state unless it cannot be read. -/
structure JobMessage where
  headers : Headers
  data : Except Err WorkflowState
  /-- the headers of the message can be copied to the context of the task -/
  context : Except Err Unit

variable (c : Answers)

/-! ### Service tasks -/

/-- The service function is run. -/
def runServiceTask : Handling Outcome := do
  emit .executeServiceTask
  match c.outcome with
  | .failed vars e => return .failed vars (.wrap "execute service task" e)
  | outcome => return outcome

/-- The function `svcFnExecutor` of a client. A panic in it is one of the service function. -/
def svcFnExecutor (job : WorkflowState) : Handling Outcome :=
  if job.state = .compensating then
    match job.compensation, c.compensationVariables with
    | none, _ => return .panicked (.error (.text "nil pointer dereference"))
    | some _, .error e => return .failed (some (some ∅)) (.wrap "get compensation variables" e)
    | some _, .ok _ => runServiceTask c
  else runServiceTask c

/-- The variables and the error of a service function. A panic becomes a fatal error, unless it is
not recovered or its value is not an error, since the type assertion on it panics in turn. -/
def recovered (ut : WorkflowState) : Outcome → Handling (Option Vars × Option Err)
  | .returned vars => return (vars, none)
  | .failed vars e => return (vars, some e)
  | .panicked value => do
    if c.noRecovery then panic
    else
      match value with
      | .other => panic
      | .error e =>
        let execute ← deref ut.execute
        return (some (some ∅), some (.workflowFatal (.wrap ("call to service task \"" ++ execute ++
          "\" terminated in panic") e) (some ut)))

/-- The error of a service function. A workflow error is reported to the server if it is a
pointer. -/
def serviceTaskFailed (trackingID : String) (vars : Option Vars) (e : Err) :
    Handling (Bool × Option Err) :=
  match e.as (Err.codeOf? true) with
  | none => return (false, some e)
  | some code => do
    let vars ← deref vars
    match c.lib.encode vars with
    | .error e =>
      return (true, some (.workflowFatal (.wrap "encode service task variables" e) none))
    | .ok v =>
      emit (.handleWorkflowError trackingID code v)
      match c.handleWorkflowError code with
      | .error e => return (true, some (.workflowFatal (.wrap "handle workflow error" e) none))
      | .ok _ => return (code ≠ "", some e)

/-- `completeServiceTask` of a client. -/
def completeServiceTask (trackingID : String) (vars : Option Vars) (compensating : Bool) :
    Handling (Option Err) := do
  let vars ← deref vars
  match c.lib.encode vars with
  | .error e => return some (.wrap "decode variables for complete service task" e)
  | .ok ev =>
    emit (.completeServiceTask trackingID ev compensating)
    match c.completeServiceTask with
    | .ok _ => return none
    | .error e => return some (.wrap "client error" e)

/-- The code `Internal` of an answer of the server. -/
def internalCode : Nat := 13

/-- The end of a service task that has returned. -/
def serviceTaskReturned (ut job : WorkflowState) (trackingID : String)
    (vars : Option Vars) : Handling (Bool × Option Err) := do
  match ← completeServiceTask c trackingID vars (job.state = .compensating) with
  | none => return (true, none)
  | some e =>
    let failed : Err := .wrap "complete service task" e
    match e.as Err.api? with
    | some (code, message) =>
      if code = internalCode then
        emit (.cancelProcessInstance ut.processInstanceId
          (some ⟨"", message, "client-" ++ toString code⟩))
        return (true, none)
      else return (false, some failed)
    | none => if e.isWorkflowFatal then return (true, some e) else return (false, some failed)

/-- The branch of `ClientProcessFn` for a service task. -/
def processServiceTaskJob (ut : WorkflowState) : Handling (Bool × Option Err) := do
  let trackingID := TrackingID.ID ut.id
  match c.getJob trackingID with
  | .error e => return (false, some (.wrap "get service task job kv" e))
  | .ok job =>
    if c.serviceTasks job.executeVersion then
      match c.lib.decode job.vars with
      | .error e =>
        let _ ← deref job.execute
        return (false, some (.wrap "decode service task job variables" e))
      | .ok _ =>
        let outcome ← svcFnExecutor c job
        match ← recovered c ut outcome with
        | (vars, some e) => serviceTaskFailed c trackingID vars e
        | (vars, none) => serviceTaskReturned c ut job trackingID vars
    else
      let _ ← deref job.execute
      return (false, some (.wrap "service task locator" (.workflowFatalValue
        (.wrap "find service task function" (.workflowFatalValue
          (.text ("service task '" ++ job.executeVersion ++ "' not found")))))))

/-! ### Messages -/

/-- The end of the branch for a message that is sent. -/
def senderReturned (job : WorkflowState) (trackingID : String) : Handling (Bool × Option Err) := do
  emit (.completeSendMessage trackingID)
  match c.completeSendMessage with
  | .ok _ => return (true, none)
  | .error e =>
    let e : Err := .wrap "client error" e
    if e.isWorkflowFatal then
      let _ ← deref job.execute
      return (true, none)
    else return (false, some e)

/-- The branch of `ClientProcessFn` for a message that is to be sent. -/
def processSendMessageJob (ut : WorkflowState) : Handling (Bool × Option Err) := do
  let trackingID := TrackingID.ID ut.id
  match c.getJob trackingID with
  | .error e => return (false, some (.wrap "complete send message task" e))
  | .ok job =>
    let execute ← deref job.execute
    if c.senders (job.workflowName ++ "_" ++ execute) then
      match c.lib.decode job.vars with
      | .error e =>
        return (false, some (.workflowFatal (.wrap "decode send message variables" e) none))
      | .ok _ =>
        emit .executeSender
        match c.sent with
        | .error e => return (false, some e)
        | .ok _ => senderReturned c job trackingID
    else
      return (false, some (.wrap "msgFn locator" (.workflowFatalValue
        (.text ("msg send task '" ++ execute ++ "' not found")))))

/-- `ClientProcessFn`. -/
def clientProcessFn (m : JobMessage) : Handling (Bool × Option Err) :=
  match c.compatible, m.data, m.context with
  | .error e, _, _ => return (false, some (.wrap "compatibility issue" e))
  | .ok _, .error e, _ => return (false, some (.wrap "service task listener" e))
  | .ok _, .ok _, .error e =>
    return (true, some (.workflowFatal (.wrap "obtain headers from message" e) none))
  | .ok _, .ok ut, .ok _ =>
    match ut.elementType with
    | .serviceTask => processServiceTaskJob c ut
    | .messageIntermediateThrowEvent => processSendMessageJob c ut
    | _ => return (true, none)

/-! ### Backoff -/

/-- A power of two, as a floating point number that is converted to an integer. Out of range the
conversion gives the least integer. -/
def incrementMultiplier (n : Nat) : Int64 := if n < 63 then Int64.ofNat (2 ^ n) else Int64.minValue

/-- The factor from milliseconds to nanoseconds. -/
def millisecond : Int64 := 1000000

/-- The delay before the ceiling is applied, for an attempt that is not the first one. -/
def grownOffset (strategy : RetryStrategy) (initial interval : Int64) (deliveryCount : Nat) :
    Int64 :=
  match strategy with
  | .linear => initial + interval * (Int64.ofNat deliveryCount - 1)
  | .exponential => initial + interval * incrementMultiplier (deliveryCount - 1)

/-- `getOffset`, where `elapsed` is the time since the message was published. -/
def getOffset (strategy : RetryStrategy) (initial interval : Int64) (deliveryCount : Nat)
    (ceiling elapsed : Int64) : Int64 :=
  let initial := initial * millisecond
  let interval := interval * millisecond
  let ceiling := ceiling * millisecond
  let interval := if interval = 0 then 1000 * millisecond else interval
  let ceiling := if ceiling < interval then interval else ceiling
  let offset :=
    if deliveryCount > 1 then
      let offset := grownOffset strategy initial interval deliveryCount
      if offset > ceiling then ceiling else offset
    else 0
  if elapsed > offset * millisecond then 0 else offset

/-- `strconv.ParseBool`. -/
def parseBool (s : String) : Option Bool :=
  if s ∈ ["1", "t", "T", "TRUE", "true", "True"] then some true
  else if s ∈ ["0", "f", "F", "FALSE", "false", "False"] then some false
  else none

/-- The value that a task sets when its retries are exceeded. -/
def retryValue (exceeded : DefaultRetryExceededBehaviour) : Option Value :=
  match exceeded.variableType with
  | "int" => (c.lib.atoi exceeded.variableValue).map (.int .int64)
  | "float" => c.parseFloat exceeded.variableValue
  | "bool" => (parseBool exceeded.variableValue).map .bool
  | _ => some (.string exceeded.variableValue)

/-- The action that is taken when the retries of a task are exceeded. Whether it succeeds is only
ever logged. -/
def retryExceeded (state : WorkflowState) (retry : DefaultTaskRetry) : Handling Unit := do
  let exceeded ← deref retry.defaultExceeded
  match exceeded.action with
  | .failWorkflow => emit (.cancelProcessInstance state.processInstanceId none)
  | .throwWorkflowError =>
    emit (.handleWorkflowError (TrackingID.ID state.id) exceeded.errorCode [])
  | .pauseWorkflow => emit (.handleWorkflowFatalError state)
  | .setVariableValue =>
    match retryValue c exceeded with
    | none => return ()
    | some v =>
      let _ ← completeServiceTask c (TrackingID.ID state.id)
        (some (some (AList.singleton exceeded.variable_ v))) (state.state = .compensating)

/-- `backoff`, once the task is known. -/
def backoffTask (state : WorkflowState) (numDelivered : Nat) (retry : DefaultTaskRetry) :
    Handling Unit :=
  if numDelivered ≥ retry.number then
    (retryExceeded c state retry).deferring [.term, .notifyRetryExceeded]
  else
    emit (.nakWithDelay (getOffset retry.strategy retry.initMilli retry.intervalMilli numDelivered
      retry.maxMilli c.elapsed).toInt)

/-- `backoff`. -/
def backoff (m : JobMessage) : Handling Unit := do
  emit .backoff
  match m.data, c.numDelivered with
  | .error _, _ => return ()
  | .ok _, .error _ => return ()
  | .ok state, .ok numDelivered =>
    match c.getWorkflow state.workflowId with
    | .error e => if e.is .workflowNotFound then emit .term else return ()
    | .ok wf =>
      let elem ← deref ((elementTable wf).lookup state.elementId)
      let retry ← deref elem.retryBehaviour
      backoffTask c state numDelivered retry

/-- The end of `Process` of a client. -/
def settle (m : JobMessage) (done : Processed) : Handling Unit := do
  match done.signal with
  | some state => emit (.handleWorkflowFatalError state)
  | none => pure ()
  match done.settlement with
  | .ack => emit .ack
  | .nak => emit .nak
  | .backoff => backoff c m

/-- `Process` of a client, for one message. -/
def processJob (m : JobMessage) : Handling Unit :=
  match admission c.lib c.now m.headers with
  | .acked => emit .ack
  | .kept => return ()
  | .delayed offset => emit (.nakWithDelay offset.toInt)
  | .handled => do
    let (ack, err) ← clientProcessFn c m
    settle c m (processed true ack err)

end SharWorkflow
