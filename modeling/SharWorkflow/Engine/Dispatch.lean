import SharWorkflow.Engine.Start
import SharWorkflow.Engine.Gateway
import SharWorkflow.Engine.Launch
import SharWorkflow.Nats.Process

/-!
# The consumers of the engine

How the server hands the messages of a process instance to their handlers. All the consumers use
`Process` without a function for the backoff, and with `SignalFatalErrorTeardown` for fatal errors:
it publishes the state that the error carries, with the order to tear the workflow down.

* `Work`: the messages by which a process instance goes on, and `Work.handler`, their handlers.
* `serve`: what `Process` does with one message.
-/

namespace SharWorkflow

open Concurrent

/-- The kinds of messages by which a process instance goes on. -/
inductive Work
  | traversal
  | activityComplete
  | jobComplete
  | gatewayActivate
  | gatewayExecute
  | launch
  deriving DecidableEq, Repr

/-- The handler of a message with the given state. -/
def Work.handler (lib : Lib) (ns : String) (state : WorkflowState) : Work → Handler Bool
  | traversal => processTraversals lib ns state
  | activityComplete => processActivities lib ns state
  | jobComplete => processCompletedJobs lib ns state
  | gatewayActivate => processGatewayActivation ns state
  | gatewayExecute => gatewayExecProcessor lib ns state
  | launch => processLaunch lib ns state

/-- `signaFatalError`. A failure to publish goes unnoticed. -/
def signaFatalError (ns : String) (state : WorkflowState) (handlingStrategy : HandlingStrategy) :
    P Unit := do
  let _ ← (publishMsg ⟨ns, .systemProcessFatalError, .fatalError ⟨handlingStrategy, state⟩, 0⟩).run

/-- `SignalFatalErrorTeardown`. -/
def signalFatalErrorTeardown (ns : String) (state : WorkflowState) : P Unit :=
  signaFatalError ns state .tearDown

/-- The fatal error that `Process` logs. -/
def logFatal (e : Err) : P Unit :=
  if e.isWorkflowFatal then do
    let _ ← (logError "workflow fatal error occurred processing function").run
  else return ()

/-- `Process`, for a message that is not held back. -/
def serve (ns : String) (handler : Handler Bool) : P Settlement := do
  match ← handler.run with
  | .ok ack => return (processed false ack none).settlement
  | .error (ack, e) =>
    logFatal e
    let outcome := processed false ack (some e)
    match outcome.signal with
    | none => return outcome.settlement
    | some state =>
      signalFatalErrorTeardown ns state
      return outcome.settlement

end SharWorkflow
