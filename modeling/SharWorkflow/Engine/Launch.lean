import SharWorkflow.Engine.Activity

/-!
# Launching processes

The functions of `operations.go` that start a process: from outside, or as the child of a call
activity (`launchProcessor`). A top-level launch creates an execution; a child joins the one of its
parent. Every process that is launched gets a process instance, and a token for each of its start
events.

The tokens of a process instance carry the id stack of its caller, then the id of the process
instance, then one id of their own (`startState`).
-/

namespace SharWorkflow

open Concurrent

variable (lib : Lib) (ns : String)

/-- `getWorkflowNameFor`. -/
def getWorkflowNameFor (ns processId : String) : Act String := do
  nsKVs ns
  Act.mapError
    (fun e => if e.is .keyNotFound then
        .wrap ("get workflow name for process " ++ processId) (.sentinel .processNotFound)
      else .wrap "load workflow name for process" e)
    (load ⟨ns, .wfProcess, processId⟩)

/-- `getWorkflowVersions`. -/
def getWorkflowVersions (ns workflowName : String) : Act WorkflowVersions :=
  loadFor ⟨ns, .wfVersion, workflowName⟩ "get latest workflow version" .workflowNotFound
    "load object whist getting latest versiony"

/-- A task of a process is checked to be in use still. -/
def checkTaskDeprecation (ns processId : String) (el : Element) : Act Unit :=
  Act.when (el.type = .serviceTask) do
    let version ← Act.deref el.version
    let st ← Act.wrap "get task spec by uid" (getTaskSpecByUID ns version)
    if (st.behaviour.map (·.deprecated)).getD false then
      throw (.text ("process " ++ processId ++ " contains deprecated task " ++ el.execute))
    else return ()

/-- `checkProcessTaskDeprecation`. -/
def checkProcessTaskDeprecation (workflow : Workflow) (processId : String) : Act Unit := do
  let pr ← Act.deref (workflow.process.lookup processId)
  pr.elements.forM (checkTaskDeprecation ns processId)

/-- `EnsureBucket`. -/
def ensureBucket (name : String) : Act Unit :=
  (Prog.perform (Op.ensureBucket name) : P (Ans (Op.ensureBucket name)))

/-- `createExecution`. -/
def createExecution (workflowId workflowName : String) : Act Execution := do
  let executionID ← newId
  let execution : Execution := ⟨executionID, workflowId, workflowName, []⟩
  nsKVs ns
  -- the error of this call is looked at after the execution has been saved
  let wf ← Act.attempt (getWorkflow ns workflowId)
  Act.wrap "save execution object to KV" (saveObj ⟨ns, .wfExecution, executionID⟩ execution)
  let wf ← Act.wrap "get workflow object from KV" (Act.ofExcept wf)
  wf.messages.forM fun m =>
    Act.wrap ("ensuring bucket '" ++ m.name ++ "'") (ensureBucket ("MsgTx_" ++ ns ++ "_" ++ m.name))
  return execution

/-- The facts about a launch that its process instances share. -/
structure Launch where
  /-- the id stack of the caller -/
  ID : TrackingID := []
  workflowName : String
  wfID : String
  executionId : String
  vars : Bytes := []
  parentpiID : String := ""
  parentElID : String := ""
  headers : Bytes := []

/-- The process instance `id` of a launch. -/
def Launch.instance (launch : Launch) (processId id : String) : ProcessInstance where
  processInstanceId := id
  processId := processId
  parentProcessId := some launch.parentpiID
  parentElementId := some launch.parentElID
  executionId := launch.executionId
  headers := launch.headers
  workflowName := launch.workflowName
  workflowId := launch.wfID

/-- `createProcessInstance`. -/
def createProcessInstance (launch : Launch) (processId : String) : Act ProcessInstance := do
  let id ← newId
  let pi := launch.instance processId id
  nsKVs ns
  let wfi ← Act.wrap "create process instance failed to get workflow"
    (getExecution ns launch.executionId)
  Act.wrap "create process instance failed to save process instance"
    (saveObj ⟨ns, .wfProcessInstance, id⟩ pi)
  let _ ← Act.wrap "create process instance failed to update workflow instance"
    (updateObj ⟨ns, .wfExecution, launch.executionId⟩ wfi fun (v : Execution) =>
      .ok { v with processInstanceId := v.processInstanceId ++ [id] })
  return pi

/-- The first token of a process instance. -/
def startState (launch : Launch) (processId pi id : String) (el : Element) : WorkflowState where
  elementType := el.type
  elementId := el.id
  elementName := el.name
  workflowId := launch.wfID
  executionId := launch.executionId
  id := (launch.ID.push pi).push id
  vars := launch.vars
  workflowName := launch.workflowName
  processId := processId
  processInstanceId := pi

/-- The start elements of a process. -/
def startElements (pr : Process) : List Element := pr.elements.filter fun i => i.type = .startEvent

/-- `forEachStartElement`. -/
def forEachStartElement (pr : Process) (fn : Element → Act Unit) : Act Unit :=
  (startElements pr).forM fun i => Act.wrap "start event execution" (fn i)

/-- The variables that the transform of a start element uses are checked to be there. -/
def checkStartVars (lib : Lib) (vals : GoMap Value) : List String → Except Err Unit
  | [] => .ok ()
  | v :: rest =>
    match lib.getVariables v with
    | .error e => .error (.wrap "extract variables from workflow during launch" e)
    | .ok evs =>
      match evs.find? fun ev => (vals.lookup ev).isNone with
      | some ev =>
        .error (.wrap ("workflow expects variable '\x7b" ++ ev ++ "\x7d'") (.sentinel .expectedVar))
      | none => checkStartVars lib vals rest

/-- One start element of the process instance `pi` gets its token. -/
def launchStart (launch : Launch) (processId pi : String) (el : Element) : Act Unit := do
  let id ← newId
  let exec := startState launch processId pi id el
  let _ ← Act.wrap "publish workflow timed process execute"
    (publishWorkflowState ns .processExecute
      { exec with id := (launch.ID.push launch.executionId).push pi })
  Act.wrap "publish initial traversal" (recordHistoryProcessStart ns exec)
  let _ ← Act.wrap "publish initial traversal" (publishWorkflowState ns .traversalExecute exec)

/-- `launchProcess`. -/
def launchProcess (launch : Launch) (pr : Process) : Act Unit := do
  let vals ← Act.wrap "decode variables during launch" (Act.ofExcept (lib.readVars launch.vars))
  Act.wrap "initialize all workflow start events" (forEachStartElement pr fun el =>
    Act.ofExcept (checkStartVars lib vals (el.outputTransform.entries.map Sigma.snd)))
  Act.when (startElements pr ≠ []) do
    let pi ← Act.wrap "launch failed to create new process instance"
      (createProcessInstance ns launch pr.id)
    forEachStartElement pr (launchStart ns launch pr.id pi.processInstanceId)

/-- `rollBackLaunch`. A failure to publish goes unnoticed. -/
def rollBackLaunch (e : Execution) : Act Unit := do
  let _ ← Act.attempt (publishWorkflowState ns .executionAbort
    { id := [e.executionId]
      executionId := e.executionId
      workflowName := e.workflowName
      workflowId := e.workflowId
      state := .terminated })

/-- A top-level launch creates an execution and publishes it. The launch is rolled back when the
publication fails. -/
def beginExecution (workflowName wfID : String) (wf : Workflow) (vrs : Bytes) : Act String := do
  let e ← engineErr (createExecution ns wfID wf.name)
  match ← Act.attempt (publishWorkflowState ns .executionExecute
    { executionId := e.executionId
      workflowId := wfID
      workflowName := workflowName
      vars := vrs
      id := [e.executionId] }) with
  | .ok _ => return e.executionId
  | .error err =>
    rollBackLaunch ns e
    throw (.wrap "engine-error" err)

/-- The execution and the headers of a launch: new ones, or those of the parent. -/
def launchContext (ns parentpiID : String) (workflowName wfID : String) (wf : Workflow)
    (vrs headers : Bytes) : Act (String × Bytes) :=
  if parentpiID = "" then do
    let executionId ← beginExecution ns workflowName wfID wf vrs
    return (executionId, headers)
  else do
    let pi ← Act.wrap "launch failed to get process instance for parent"
      (getProcessInstance ns parentpiID)
    let e ← Act.wrap "launch failed to get execution for parent" (getExecution ns pi.executionId)
    return (e.executionId, pi.headers)

/-- The processes of a collaboration. -/
def collaborationProcesses (wf : Workflow) (processId : String) :
    List Participant → Except Err (List Process)
  | [] => .ok []
  | i :: rest =>
    match wf.process.lookup i.processId with
    | none =>
      .error (.text ("find collaboration process with name " ++ processId ++ ": %!w(<nil>)"))
    | some pr =>
      match collaborationProcesses wf processId rest with
      | .error e => .error e
      | .ok prs => .ok (pr :: prs)

/-- The processes to launch: all of the collaboration that the process is part of, or the process
alone. -/
def launchProcesses (wf : Workflow) (processId : String) (participants : List Participant) :
    Except Err (List Process) :=
  match collaborationProcesses wf processId participants with
  | .error e => .error e
  | .ok prs =>
    if participants.any fun i => i.processId = processId then .ok prs
    else
      match wf.process.lookup processId with
      | none => .error (.text ("find process with name " ++ processId ++ ": %!w(<nil>)"))
      | some pr => .ok [pr]

/-- A workflow that is disabled is not launched. -/
def checkEnabled (ns workflowName : String) (wfv : WorkflowVersions) : Act Unit :=
  Act.when (wfv.isExecutionDisabled = true) do
    Act.wrap "failed to publish disable workflow launch notification" (Act.wrap "publish message"
      (publishMsg ⟨ns, .systemWorkflowDisableLaunchAttempted, .disableLaunchAttempted workflowName,
        0⟩))
    engineErr (throw (.text "the workflow is not executable"))

/-- `LaunchWithParent`. -/
def launchWithParent (ns processId : String) (ID : TrackingID) (vrs headers : Bytes)
    (parentpiID parentElID : String) : Act (String × String) := do
  let workflowName ← engineErr (getWorkflowNameFor ns processId)
  -- the result is used before the error is looked at
  let found ← Act.attempt (getWorkflowVersions ns workflowName)
  let wfv ← Act.deref found.toOption
  checkEnabled ns workflowName wfv
  let version ← Act.deref wfv.version.getLast?
  let wfID := version.id
  let wf ← engineErr (getWorkflow ns wfID)
  Act.wrap "check task deprecation" (checkProcessTaskDeprecation ns wf processId)
  let (executionId, headers) ← launchContext ns parentpiID workflowName wfID wf vrs headers
  let participants ← Act.deref wf.collaboration
  let prs ← Act.ofExcept (launchProcesses wf processId participants)
  prs.forM fun pr => launchProcess lib ns
    { ID, workflowName, wfID, executionId, vars := vrs, parentpiID, parentElID, headers } pr
  return (executionId, wfID)

/-- `Launch`. -/
def launch (ns processId : String) (vars headers : Bytes) : Act (String × String) :=
  launchWithParent lib ns processId [] vars headers "" ""

/-- `launchProcessor`: a call activity starts its child. -/
def launchProcessor (state : WorkflowState) : Act Unit := do
  let wf ← Act.mapError (fun _ => .workflowFatal (.sentinel .workflowNotFound) none)
    (getWorkflow ns state.workflowId)
  let pi ← Act.wrap "get process instance" (getProcessInstance ns state.processInstanceId)
  let el ← Act.deref ((elementTable wf).lookup state.elementId)
  let _ ← engineErr (Act.mapError (fun e => .workflowFatal e none)
    (launchWithParent lib ns el.execute state.id state.vars pi.headers state.processInstanceId
      state.elementId))

/-- The handler of `processLaunch`. -/
def processLaunch (job : WorkflowState) : Handler Bool := do
  match ← Act.acking false (Act.attempt (hasValidProcess ns job.processInstanceId job.executionId))
  with
  | .error e => throw (e.is .executionNotFound || e.is .processInstanceNotFound, e)
  | .ok _ =>
    Act.acking false (Act.wrap "execute launch function" (launchProcessor lib ns job))
    return true

end SharWorkflow
