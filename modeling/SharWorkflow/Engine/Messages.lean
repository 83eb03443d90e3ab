import SharWorkflow.Engine.Operations

/-!
# Messages

The functions of `messages.go`. The sender of a message and the tasks that wait for it meet in an
exchange, which is stored under the name and the correlation key of the message: each party adds
itself to the exchange, reads it back and delivers what can be delivered.

* `handleMessageExchange`: the arrival of a party.
* `attemptMessageDelivery`: the sender delivers to all receivers, a receiver to itself; the exchange
  is deleted when all expected receivers are there.
* `processMessage`, `awaitMessageProcessor`: the handlers of the two parties.
-/

namespace SharWorkflow

open Concurrent

/-- The two sides of an exchange. -/
inductive Party
  | sender
  | receiver
  deriving DecidableEq, Repr

/-- The name of a party in an error text. -/
def Party.name : Party → String
  | sender => "sender"
  | receiver => "receiver"

/-- `messageKeyFrom`. -/
def messageKeyFrom (keyElements : List String) : String := String.intercalate "-" keyElements

/-- Where the exchange for a message is stored. -/
abbrev messageLoc (ns messageName correlationKey : String) : Loc :=
  ⟨ns, .wfMessages, messageKeyFrom [messageName, correlationKey]⟩

/-- `hasAllReceivers`. A message that nobody is expected to receive is never complete. -/
def hasAllReceivers (ns : String) (exchange : Exchange) (messageName : String) : Act Bool := do
  nsKVs ns
  let expected ← Act.wrap "load expected receivers" (loadObj ⟨ns, .wfMsgTypes, messageName⟩)
  let expected : List MessageReceiver := MessageReceivers.messageReceiver expected
  return !expected.isEmpty && expected.all fun receiver =>
    (exchange.receivers.lookup receiver.id).isSome

/-- The loop of `attemptMessageDelivery` over the receivers. Its result says whether the function
goes on after the loop, which it does not when a job is not found in the store. -/
def deliver (ns : String) (sender : Sender) : List (Option Receiver) → Act Bool
  | [] => return true
  | recvr :: rest => do
    let recvr ← Act.deref recvr
    match ← Act.attempt (getJob ns recvr.id) with
    | .error e => if e.is .keyNotFound then return false else throw e
    | .ok job =>
      let _ ← Act.wrap "publishing complete message job"
        (publishWorkflowState ns .jobAwaitMessageComplete { job with vars := sender.vars })
      deliver ns sender rest

/-- The receivers to deliver to: all of them for the sender, in the order in which the runtime
ranges over the map, and for a receiver only the one that has just arrived. -/
def deliveries (exchange : Exchange) (receiverName : String) : Party → Act (List (Option Receiver))
  | .sender => do
    let order ← mapOrder exchange.receivers.keys
    return order.map fun k => exchange.receivers.lookup k
  | .receiver => return [exchange.receivers.lookup receiverName]

/-- `attemptMessageDelivery`. -/
def attemptMessageDelivery (ns : String) (exchange : Exchange) (receiverName : String)
    (justArrivedParty : Party) (messageName correlationKey : String) : Act Unit := do
  mark "attemptMessageDelivery"
  nsKVs ns
  match exchange.sender with
  | none => return ()
  | some sender =>
    if exchange.receivers.entries.isEmpty then return ()
    else
      let receivers ← deliveries exchange receiverName justArrivedParty
      if ← deliver ns sender receivers then
        if ← Act.wrap "failed has expected receivers" (hasAllReceivers ns exchange messageName) then
          Act.wrap "error deleting exchange" (kvDelete (messageLoc ns messageName correlationKey))

/-- The party is added to the exchange, or opens it. -/
def joinExchange (loc : Loc) (party : Party) (setPartyFn : loc.Val → loc.Val)
    (exchange msg : loc.Val) : Act Unit := do
  match ← Act.attempt (kvCreate loc exchange) with
  | .ok _ => return ()
  | .error e =>
    if e.is .keyExists then
      let _ ← Act.wrap ("failed to update exchange with " ++ party.name)
        (updateObj loc msg fun exch => .ok (setPartyFn exch))
    else
      throw (.wrap "error creating message exchange" e)

/-- `handleMessageExchange`. -/
def handleMessageExchange (ns : String) (party : Party) (setPartyFn : Exchange → Exchange)
    (elementId : String) (exchange : Exchange) (messageName correlationKey : String) :
    Act Unit := do
  mark "handleMessageExchange"
  nsKVs ns
  joinExchange (messageLoc ns messageName correlationKey) party setPartyFn exchange ({} : Exchange)
  let updatedExchange ← Act.wrap "failed to retrieve exchange"
    (loadObj (messageLoc ns messageName correlationKey))
  Act.wrap "failed attempted delivery"
    (attemptMessageDelivery ns updatedExchange elementId party messageName correlationKey)

/-- `processMessage`. -/
def processMessage (ns : String) (instance_ : MessageInstance) : Handler Bool := do
  let sender : Sender := { vars := instance_.vars, correlationKey := instance_.correlationKey }
  Act.acking false (handleMessageExchange ns .sender
    (fun exch => { exch with sender := some sender }) "" { sender := some sender }
    instance_.name instance_.correlationKey)
  return true

/-- The correlation key of a task that waits for a message. -/
def correlationKeyOf (lib : Lib) (job : WorkflowState) (el : Element) : Except Err String :=
  match lib.readVars job.vars with
  | .error e =>
    .error (.workflowFatal (.wrap "decoding vars for message correlation" e) (some job))
  | .ok vals =>
    let text res := "message correlation expression evaluation errored or was empty '=" ++
      el.execute ++ "'=" ++ lib.format res ++ " "
    match lib.evalAny ("= " ++ el.execute) vals with
    | .error e => .error (.workflowFatal (.wrap (text .nil) e) (some job))
    | .ok .nil => .error (.workflowFatal (.text (text .nil ++ ": %!w(<nil>)")) (some job))
    | .ok resAny => .ok (lib.format resAny)

/-- `awaitMessageProcessor`. -/
def awaitMessageProcessor (lib : Lib) (ns : String) (job : WorkflowState) : Handler Bool := do
  match ← Act.acking false (Act.attempt (hasValidProcess ns job.processInstanceId job.executionId))
  with
  | .error e => throw (e.is .executionNotFound || e.is .processInstanceNotFound, e)
  | .ok _ =>
    match ← Act.acking false (Act.attempt (getElement ns job)) with
    | .error e =>
      if e.is .keyNotFound then
        throw (true, .workflowFatal (.wrap "finding associated element" e) (some job))
      else throw (false, .wrap "get message element" e)
    | .ok el =>
      let correlationKey ← Act.acking false (Act.ofExcept (correlationKeyOf lib job el))
      let receiver : Receiver := ⟨TrackingID.ID job.id, correlationKey⟩
      Act.acking false (Act.wrap "failed to handle receiver message"
        (handleMessageExchange ns .receiver
          (fun exch => { exch with receivers := exch.receivers.insert job.elementId receiver })
          job.elementId { receivers := AList.singleton job.elementId receiver } el.msg
          correlationKey))
      return true

end SharWorkflow
