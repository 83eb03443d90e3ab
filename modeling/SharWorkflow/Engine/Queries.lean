import SharWorkflow.Engine.Launch
import SharWorkflow.Engine.Registry

/-!
# The registry, switched and queried

The other operations on the registry of workflows and task specifications: a workflow is enabled or
disabled, a task specification is put, and what is registered is listed.

The functions that list workflows send what they find on one channel and errors on another. They are
modelled by the list of what they send, in its order. `ListWorkflows` and `ListExecutableProcesses`
go on after an error of a read, with the object that they have.
-/

namespace SharWorkflow

open Concurrent

/-- `KeyValue.Keys`. -/
def kvKeys (ns : String) (b : Bucket) : Act (List String) :=
  (Prog.perform (Op.keys ns b) : P (Ans (Op.keys ns b)))

/-! ### Switches -/

/-- `makeExecutable`. -/
def makeExecutable (ns workflowName : String) (isExecutionDisabled : Bool) : Act Unit := do
  Act.wrap ("get kvs for makeExecutable " ++ toString isExecutionDisabled) (kvsFor ns)
  let _ ← Act.wrap ("set makeExecutable " ++ toString isExecutionDisabled)
    (updateObj ⟨ns, .wfVersion, workflowName⟩ ({} : WorkflowVersions)
      fun (wfVersion : WorkflowVersions) => .ok { wfVersion with isExecutionDisabled })

/-- `DisableWorkflow`. -/
def disableWorkflow (ns workflowName : String) : Act Unit := makeExecutable ns workflowName true

/-- `EnableWorkflow`. -/
def enableWorkflow (ns workflowName : String) : Act Unit := makeExecutable ns workflowName false

/-! ### Task specifications -/

/-- The update function of `PutTaskSpec`: the version is added to the list, and announced. The
length is looked at after the version was added, so it is never announced as an update. -/
def addTaskVersion (ns uid : String) (spec : TaskSpec) (ids : List String) (s : Unit) :
    P (Except Err (List String) × Unit) := do
  let ids := ids ++ [uid]
  let subject : Subject := if ids.length = 0 then .systemTaskUpdate else .systemTaskCreate
  match ← (publishMsg ⟨ns, subject, .taskSpec spec, 0⟩).run with
  | .error e => return (.error (.wrap "send system message" e), s)
  | .ok _ => return (.ok ids, s)

/-- `PutTaskSpec`, for the specification of the task type `type`. Its uid is a hash of the
specification. -/
def putTaskSpec (createUID : TaskSpec → Except Err String) (ns type : String) (spec : TaskSpec) :
    Act String := do
  nsKVs ns
  let uid ← Act.wrap "put task spec: hash task" (Act.ofExcept (createUID spec))
  Act.wrap ("ensure consumer for service task " ++ uid) (ensureServiceTaskConsumer ns uid)
  Act.wrap "saving task spec" (saveObj ⟨ns, .wfTaskSpec, uid⟩ spec)
  let (updated, _) ← (updateObjWith ⟨ns, .wfTaskSpecVer, type⟩ ([] : List String) ()
    (addTaskVersion ns uid spec) : P (Except Err Unit × Unit))
  Act.wrap "saving task spec version" (Act.ofExcept updated)
  return uid

/-- The update function of `DeprecateTaskSpec`. -/
def TaskSpec.deprecate (v : TaskSpec) : TaskSpec :=
  { v with behaviour := some { v.behaviour.getD {} with deprecated := true } }

/-- `DeprecateTaskSpec`. -/
def deprecateTaskSpec (ns : String) (uid : List String) : Act Unit := do
  nsKVs ns
  uid.forM fun u => do
    let _ ← Act.wrap "deprecate task spec update task"
      (updateObj ⟨ns, .wfTaskSpec, u⟩ ({} : TaskSpec) fun (v : TaskSpec) => .ok v.deprecate)

/-- The newest version of each task, taken in the given order, without the deprecated ones unless
they are asked for. -/
def latestTaskSpecs (ns : String) (deprecated : Bool) : List String → Act (List String)
  | [] => return []
  | v :: rest => do
    let ids ← Act.wrap "get task spec version" (loadObj ⟨ns, .wfTaskSpecVer, v⟩)
    let latestVer ← Act.deref (List.getLast? ids)
    let latest ← Act.wrap "get task spec" (getTaskSpecByUID ns latestVer)
    let more ← latestTaskSpecs ns deprecated rest
    return if deprecated || latest.behaviour.any (!·.deprecated) then latestVer :: more else more

/-- `ListTaskSpecUIDs`. -/
def listTaskSpecUIDs (ns : String) (deprecated : Bool) : Act (List String) := do
  nsKVs ns
  let vers ← Act.wrap "get task spec version keys" (kvKeys ns .wfTaskSpecVer)
  latestTaskSpecs ns deprecated vers

/-! ### Workflows -/

/-- The id of the newest version of each workflow, taken in the given order. -/
def newestIds (ns : String) : List String → Act (List String)
  | [] => return []
  | verKey :: rest => do
    let wfv ← Act.wrap "get workflow version" (loadObj ⟨ns, .wfVersion, verKey⟩)
    let newest ← Act.deref (WorkflowVersions.version wfv).getLast?
    let more ← newestIds ns rest
    return newest.id :: more

/-- `GetExecutableWorkflowIds`. -/
def getExecutableWorkflowIds (ns : String) : Act (List String) := do
  Act.wrap ("GetExecutableWorkflowIds - failed getting KVs for ns " ++ ns) (kvsFor ns)
  let verKeys ← Act.wrap "get workflow version keys" (kvKeys ns .wfVersion)
  newestIds ns verKeys

/-- What `ListWorkflows` sends. -/
structure ListWorkflowResponse where
  name : String
  version : Int32
  deriving DecidableEq, Repr

/-- The workflows in the given order. `v` is the object into which versions are read; a failed read
leaves it as it is. -/
def listVersions (ns : String) (v : WorkflowVersions) :
    List String → Act (List (Except Err ListWorkflowResponse))
  | [] => return []
  | k :: rest => do
    match ← Act.attempt (loadObj ⟨ns, .wfVersion, k⟩) with
    | .error e =>
      if e.is .noKeysFound then listVersions ns v rest
      else
        let newest ← Act.deref v.version.getLast?
        let more ← listVersions ns v rest
        return .error e :: .ok ⟨k, newest.number⟩ :: more
    | .ok v =>
      let newest ← Act.deref (WorkflowVersions.version v).getLast?
      let more ← listVersions ns v rest
      return .ok ⟨k, newest.number⟩ :: more

/-- `ListWorkflows`. -/
def listWorkflows (ns : String) : Act (List (Except Err ListWorkflowResponse)) := do
  match ← Act.attempt (nsKVs ns) with
  | .error e => return [.error e]
  | .ok _ =>
    match ← Act.attempt (kvKeys ns .wfVersion) with
    | .error e => if e.is .noKeysFound then return [] else return [.error e]
    | .ok ks => listVersions ns {} ks

/-! ### Executable processes -/

/-- What `ListExecutableProcesses` sends. -/
structure ListExecutableProcessesItem where
  processId : String
  workflowName : String
  parameter : List String
  deriving DecidableEq, Repr

/-- The variables of the output transforms of a start event. -/
def startVariables (lib : Lib) (el : Element) : List String → Except Err (List String)
  | [] => .ok []
  | ex :: rest =>
    match lib.getVariables ((el.outputTransform.lookup ex).getD "") with
    | .error e => .error (.wrap "get expression variables" e)
    | .ok v =>
      match startVariables lib el rest with
      | .error e => .error e
      | .ok more => .ok (v ++ more)

/-- The variables that an element asks for when the process is started. -/
def startEventVariables (lib : Lib) (el : Element) : Act (Except Err (List String)) :=
  if el.type = .startEvent then do
    let order ← mapOrder el.outputTransform.keys
    return startVariables lib el order
  else return .ok []

/-- The parameters of a process. The names found so far are added anew for each element. -/
def startParameters (lib : Lib) (startParam parameter : List String) :
    List Element → Act (Except Err (List String))
  | [] => return .ok parameter
  | el :: rest => do
    match ← startEventVariables lib el with
    | .error e => return .error e
    | .ok found =>
      let startParam := (startParam ++ found).dedup
      let names ← mapOrder startParam
      startParameters lib startParam (parameter ++ names) rest

/-- The processes of a workflow, taken in the given order; an error ends the whole list. -/
def listProcesses (lib : Lib) (wf : Workflow) :
    List String → Act (List (Except Err ListExecutableProcessesItem) × Bool)
  | [] => return ([], true)
  | key :: rest => do
    let p := (wf.process.lookup key).getD {}
    match ← startParameters lib [] [] p.elements with
    | .error e => return ([.error e], false)
    | .ok parameter =>
      let (more, proceed) ← listProcesses lib wf rest
      return (.ok ⟨p.id, wf.name, parameter⟩ :: more, proceed)

/-- The object that was read, and the error that is sent when the read has failed, in which case the
object has no field set; nothing when the key is not there. -/
def loadOrSend (text : String) (l : Loc) (zero : l.Val) : Act (Option (l.Val × List Err)) := do
  match ← Act.attempt (loadObj l) with
  | .ok v => return some (v, [])
  | .error e => if e.is .keyNotFound then return none else return some (zero, [.wrap text e])

/-- The executable processes of the workflows, taken in the given order. -/
def listExecutable (lib : Lib) (ns : String) :
    List String → Act (List (Except Err ListExecutableProcessesItem))
  | [] => return []
  | k :: rest => do
    match ← loadOrSend "load workflow versions" ⟨ns, .wfVersion, k⟩ ({} : WorkflowVersions) with
    | none => listExecutable lib ns rest
    | some (wfv, sent) =>
      let latest ← Act.deref (WorkflowVersions.version wfv).getLast?
      match ← loadOrSend "load workflow" ⟨ns, .wf, latest.id⟩ ({} : Workflow) with
      | none =>
        let more ← listExecutable lib ns rest
        return sent.map .error ++ more
      | some (wf, sent') =>
        let order ← mapOrder (Workflow.process wf).keys
        let (items, proceed) ← listProcesses lib wf order
        let more ← if proceed then listExecutable lib ns rest else pure []
        return (sent ++ sent').map .error ++ items ++ more

/-- `ListExecutableProcesses`. -/
def listExecutableProcesses (lib : Lib) (ns : String) :
    Act (List (Except Err ListExecutableProcessesItem)) := do
  match ← Act.attempt (nsKVs ns) with
  | .error e => return [.error e]
  | .ok _ =>
    match ← Act.attempt (Act.wrap "get workflow keys" (kvKeys ns .wfVersion)) with
    | .error e => return [.error e]
    | .ok wfVerKeys => listExecutable lib ns wfVerKeys

/-! ### The usage of tasks -/

/-- The element is a service task with the given specification. -/
def Element.usesTask (el : Element) (uid : String) : Prop :=
  el.type = .serviceTask ∧ el.version = some uid

/-- An instance of the process has a service task with the given specification. -/
def Workflow.usesTask (wf : Workflow) (uid processId : String) : Prop :=
  ∃ key pr, wf.process.lookup key = some pr ∧ pr.id = processId ∧
    ∃ el ∈ pr.allElements, el.usesTask uid

/-- What `GetTaskSpecUsage` reports: the workflows and processes that use one of the tasks, and
those that are executing. -/
structure TaskSpecUsageReport where
  workflow : List String
  process : List String
  executingWorkflow : List String
  executingProcessInstance : List String
  deriving DecidableEq, Repr

/-- The process has a service task with one of the given specifications. Embedded sub-processes are
not looked at. -/
def Process.hasTask (pr : Process) (uid : List String) : Bool :=
  pr.elements.any fun el => el.type = .serviceTask && el.version.any (uid.contains ·)

/-- The processes with one of the tasks, each with the name of its workflow, for the workflows with
the given ids. -/
def taskUsers (ns : String) (uid : List String) : List String → Act (List (String × String))
  | [] => return []
  | vk :: rest => do
    let wf ← Act.mapError (fun _ => .text "task spec usage by name get workflow")
      (loadObj ⟨ns, .wf, vk⟩)
    let users := (Workflow.process wf).entries.filter fun pr => pr.2.hasTask uid
    let more ← taskUsers ns uid rest
    return users.map (fun pr => (wf.name, pr.2.id)) ++ more

/-- The process instances with the given keys. -/
def executingInstances (ns : String) : List String → Act (List ProcessInstance)
  | [] => return []
  | piKey :: rest => do
    let pi ← Act.wrap "task spec usage by name get process instance"
      (loadObj ⟨ns, .wfProcessInstance, piKey⟩)
    let more ← executingInstances ns rest
    return pi :: more

/-- The end of `GetTaskSpecUsage`. What is reported are the keys of maps. -/
def usageReport (users : List (String × String)) (executing : List ProcessInstance) :
    Act TaskSpecUsageReport := do
  let workflow ← mapOrder (users.map Prod.fst).dedup
  let process ← mapOrder (users.map Prod.snd).dedup
  let executingWorkflow ← mapOrder (executing.map (·.workflowId)).dedup
  let executingProcessInstance ← mapOrder (executing.map (·.processInstanceId)).dedup
  return { workflow, process, executingWorkflow, executingProcessInstance }

/-- `GetTaskSpecUsage`. All process instances are taken for executing ones. -/
def getTaskSpecUsage (ns : String) (uid : List String) : Act TaskSpecUsageReport := do
  nsKVs ns
  let wfKeys ← Act.wrap "get executable workflows"
    (Act.optional [.noKeysFound] (getExecutableWorkflowIds ns))
  let users ← taskUsers ns uid (wfKeys.getD [])
  let piKeys ← Act.wrap "task spec usage by name get process instance keys"
    (Act.optional [.noKeysFound] (kvKeys ns .wfProcessInstance))
  let executing ← executingInstances ns (piKeys.getD [])
  usageReport users executing

end SharWorkflow
