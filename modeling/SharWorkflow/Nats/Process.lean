import SharWorkflow.Model.Vars

/-!
# The dispatcher

What `Process` does with a message: whether it hands it to the handler (`admission`), and how it
leaves it once the handler has returned (`processed`). A handler returns whether the message may be
acknowledged, and an error.

* A fatal error is signalled, if it carries the state of the workflow it is fatal to, and the
  message is acknowledged.
* Any other error is left to the function that computes the backoff, if there is one, unless it is a
  `workflow.Error`.
-/

namespace SharWorkflow

/-- What the dispatcher reads of the headers of a message: its namespace, whether the other values
could be read, and its embargo, as text. -/
structure Headers where
  namespace_ : String
  values : Except Err Unit
  embargo : String

/-- What becomes of a message before it is handled. -/
inductive Admission
  | acked
  | kept
  | delayed (offset : Int64)
  | handled
  deriving DecidableEq, Repr

/-- The beginning of `Process`, at the time `t`. -/
def admission (lib : Lib) (t : Int64) (h : Headers) : Admission :=
  if h.namespace_ = "" then .acked
  else
    match h.values with
    | .error _ => .acked
    | .ok _ =>
      if h.embargo ≠ "" ∧ h.embargo ≠ "0" then
        match lib.atoi h.embargo with
        | none => .kept
        | some e =>
          let offset := Int64.ofInt e - t
          if offset > 0 then .delayed offset else .handled
      else .handled

/-- How a message is left. -/
inductive Settlement
  | ack
  | nak
  | backoff
  deriving DecidableEq, Repr

/-- The settlement that a handler asks for. -/
def Settlement.asked (ack : Bool) : Settlement := if ack then .ack else .nak

/-- What `Process` does with the result of a handler: the state for which it signals a fatal error,
and how it leaves the message. -/
structure Processed where
  signal : Option WorkflowState := none
  settlement : Settlement

/-- The end of `Process`. `backoff` says whether there is a function that computes the backoff. -/
def processed (backoff : Bool) (ack : Bool) : Option Err → Processed
  | none => { settlement := .asked ack }
  | some e =>
    match e.as Err.fatalState? with
    | some state => { signal := state, settlement := .ack }
    | none =>
      if backoff ∧ e.as (Err.codeOf? false) = none then { settlement := .backoff }
      else { settlement := .asked ack }

end SharWorkflow
