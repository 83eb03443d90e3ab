import SharWorkflow.Engine.Alone
import SharWorkflow.Engine.Queries

/-!
# Authorization

`auth.go` of the API of the server: before a call is served, its caller is authenticated, and
authorized for the workflow that the call is about. Which workflow this is may have to be looked up
first.

The two functions that decide are parameters (`Auth`). What they get besides the user and the name
of the workflow, the headers and the function of the call, is the same during a call.

* `Auth.grants`: the caller is authenticated, and authorized for a workflow.
* `authorize`, and the functions that find the name of the workflow. Each of them returns the name
  that it has authorized, in place of the context with the user.
-/

namespace SharWorkflow

open Concurrent

/-- The subject of a call, and the functions that decide about it: `authN` returns the user of the
call, and `authZ`, if there is such a function, whether the user may make the call for a workflow.
An error of either is a refusal. -/
structure Auth where
  apiFunc : String := ""
  authN : Option String
  authZ : Option (String → String → Bool) := none

/-- The call is allowed for the workflow. -/
def Auth.grants (a : Auth) (workflowName : String) : Bool :=
  match a.authN, a.authZ with
  | none, _ => false
  | some _, none => true
  | some user, some authZ => authZ user workflowName

/-- `authorize`. -/
def authorize (a : Auth) (workflowName : String) : Act Unit :=
  match a.authN, a.authZ with
  | none, _ => throw (.wrap "authenticate" (.text "authenticate API call"))
  | some _, none => pure ()
  | some user, some authZ =>
    if authZ user workflowName then pure ()
    else throw (.wrap "authorize" (.text "authorize API call"))

/-- The refusal of a call is a fatal error. -/
def authorized (a : Auth) (workflowName : String) : Act String := do
  Act.mapError (fun e => .wrap "authorize" (.workflowFatal e none)) (authorize a workflowName)
  return workflowName

/-- The function of the call as it is named in an error. A caller who is not authenticated is left
with an empty context. -/
def Auth.shownFunc (a : Auth) : String := if a.authN.isNone then "<nil>" else a.apiFunc

/-- `authForNonWorkflow`. -/
def authForNonWorkflow (a : Auth) : Act String := authorized a ""

/-- `authForNamedWorkflow`. -/
def authForNamedWorkflow (a : Auth) (name : String) : Act String := authorized a name

/-- `authForWorkflowId`. -/
def authForWorkflowId (a : Auth) (ns workflowId : String) : Act String := do
  let workflow ← Act.wrap "get workflow for authorization" (getWorkflow ns workflowId)
  authorized a workflow.name

/-- `authFromExecutionID`. -/
def authFromExecutionID (a : Auth) (ns executionID : String) : Act (String × Execution) := do
  let execution ← Act.wrap "get execution for authorization" (getExecution ns executionID)
  let name ← authorized a execution.workflowName
  return (name, execution)

/-- `authFromProcessInstanceID`. -/
def authFromProcessInstanceID (a : Auth) (ns instanceID : String) :
    Act (String × ProcessInstance) := do
  let pi ← Act.wrap "get workflow instance for authorization" (getProcessInstance ns instanceID)
  let name ← authorized a pi.workflowName
  return (name, pi)

/-! ### Refusals -/

variable {F : Op → Prop} {X : Prop} {w : World} {a : Auth} {name : String}

/-- The error of a call that is refused. -/
def Auth.refusal (a : Auth) : Err :=
  .wrap "authorize" (.workflowFatal (if a.authN.isNone then
    .wrap "authenticate" (.text "authenticate API call")
    else .wrap "authorize" (.text "authorize API call")) none)

@[simp]
theorem ends_authorized {Q : World → Except Err String → Prop} :
    Ends (World.env F) X Q w (authorized a name).run ↔ (a.grants name = true → Q w (.ok name)) ∧
      (a.grants name = false → Q w (.error a.refusal)) := by
  rw [authorized, ends_seq, ends_mapError, authorize, Auth.grants, Auth.refusal]
  rcases hN : a.authN with _ | user
  · simp
  rcases hZ : a.authZ with _ | authZ
  · simp
  · cases hgrants : authZ user name <;> simp [hgrants]

end SharWorkflow
