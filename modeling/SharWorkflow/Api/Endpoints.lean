import SharWorkflow.Api.Auth
import SharWorkflow.Engine.Boundary

/-!
# Endpoints

The functions of the API of the server (`functions.go`) that do more than hand a call over.
-/

namespace SharWorkflow

variable (a : Auth) (ns : String) (req : GetFatalErrorRequest)

/-! ### Tasks -/

/-- The answer of `deprecateServiceTask`. -/
structure DeprecateServiceTaskResponse where
  usage : TaskSpecUsageReport
  success : Bool
  deriving DecidableEq, Repr

/-- `deprecateServiceTask`. -/
def deprecateServiceTask (ns name : String) : Act DeprecateServiceTaskResponse := do
  let _ ← Act.wrap ("authorize " ++ a.shownFunc) (authForNonWorkflow a)
  let usage ← Act.wrap "deprecate service task get initial task usage" (getTaskSpecUsage ns [name])
  if usage.executingWorkflow.length + usage.executingProcessInstance.length > 0 then
    return { usage, success := false }
  else
    Act.wrap "delete service task get spec UID" (deprecateTaskSpec ns [name])
    return { usage, success := true }

/-! ### Compensation -/

/-- `getCompensationInputVariables`. -/
def apiGetCompensationInputVariables (ns processInstanceId trackingId : String) : Act Bytes := do
  let _ ← Act.wrap "authorize get compensation input variables"
    (authFromProcessInstanceID a ns processInstanceId)
  Act.wrap "get compensation input variables"
    (getCompensationInputVariables ns processInstanceId trackingId)

/-- `getCompensationOutputVariables`. -/
def apiGetCompensationOutputVariables (ns processInstanceId trackingId : String) : Act Bytes := do
  let _ ← Act.wrap "authorize get compensation output variables"
    (authFromProcessInstanceID a ns processInstanceId)
  Act.wrap "get compensation output variables"
    (getCompensationOutputVariables ns processInstanceId trackingId)

/-! ### Fatal errors -/

/-- Which fatal errors are asked for. A part that is empty or a star may be any. -/
structure GetFatalErrorRequest where
  wfName : String := ""
  wfId : String := ""
  executionId : String := ""
  processInstanceId : String := ""
  deriving DecidableEq, Repr

namespace GetFatalErrorRequest

/-- The parts of the request, in the order of the parts of a key. -/
def segments : List String :=
  [req.wfName, req.wfId, req.executionId, req.processInstanceId]

/-- `fatalErrorKeyPrefixBuilder`. -/
def fatalErrorKeyPrefixBuilder : String :=
  ".".intercalate (req.segments.map fun segment => if segment = "" then "*" else segment)

/-- `validateGetFatalErrorRequest`. -/
def validateGetFatalErrorRequest : Except Err Unit :=
  if req.segments.all (· = "") then
    .error (.wrap "invalid get fatal err request" (.text
      "at least one of workflow name, execution id or process instance id must be specified"))
  else if req.segments.all (· = "*") then
    .error (.wrap "invalid get fatal err request" (.text "all parameters cannot be wildcards"))
  else .ok ()

end GetFatalErrorRequest

/-- A part of a request that says which one is meant. -/
def isSpecific (segment : String) : Bool := segment ≠ "" ∧ segment ≠ "*"

/-- The authorization of `getFatalErrors`: by the first part that is specific. There may be none,
and then there is no context either. -/
def authorizeFatalErrors : Act (Option String) :=
  Act.wrap "auth failed" (
    if isSpecific req.wfName then do
      let name ← authForNamedWorkflow a req.wfName
      return some name
    else if isSpecific req.wfId then do
      let name ← authForWorkflowId a ns req.wfId
      return some name
    else if isSpecific req.executionId then do
      let (name, _) ← authFromExecutionID a ns req.executionId
      return some name
    else if isSpecific req.processInstanceId then do
      let (name, _) ← authFromProcessInstanceID a ns req.processInstanceId
      return some name
    else return none)

/-- The call of `GetFatalErrors` by `getFatalErrors`. The namespace is taken from the context, which
may be nil. -/
def fatalErrorsFor (authCtx : Option String) : Act (String × Stream FatalError) := do
  let name ← Act.deref authCtx
  let stream ← (getFatalErrors ns req.fatalErrorKeyPrefixBuilder : P (Stream FatalError))
  return (name, stream)

/-- `getFatalErrors`, with the name of the workflow that was authorized. -/
def apiGetFatalErrors : Act (String × Stream FatalError) := do
  Act.ofExcept req.validateGetFatalErrorRequest
  let authCtx ← authorizeFatalErrors a ns req
  fatalErrorsFor ns req authCtx

end SharWorkflow
