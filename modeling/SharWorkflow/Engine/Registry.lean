import SharWorkflow.Engine.Compensation

/-!
# The registry of workflows

The functions of `operations.go` by which a workflow definition is loaded.

* `validateUniqueProcessIdFor`, `validateUniqueMessageNames`: the names of the definition are not
  those of another workflow.
* `processServiceTasks`: the service tasks of each process are checked against their task
  specifications, and given their version and retry behaviour; then the process is mapped to the
  workflow. The processes are taken in the order in which the runtime ranges over the map.
* `storeWorkflow`: the version is added to those of the workflow unless it is already the newest
  one, and the timers of a new version are started. The function that adds the version is run again
  when the version list has been changed in between, and what it has written and noted before stays
  (`addVersion`).

The hash of a definition is a parameter: it depends on the definition alone.
-/

namespace SharWorkflow

open Concurrent

variable (lib : Lib) (getHash : Workflow → Bytes) (ns : String) (svcTaskConsFn : String → Act Unit)
  (errors : List Error) (spec : TaskSpec) (wf : Workflow) (wfID : String)

/-! ### Names -/

/-- A process of the definition that belongs to another workflow, with the name of that workflow.
A failed read of the mapping is a nil pointer in what follows. -/
def foreignProcess (ns wfName processId : String) : Act (Option (String × String)) := do
  match ← Act.attempt (kvGet ⟨ns, .wfProcess, processId⟩) with
  | .error e => if e.is .keyNotFound then return none else Act.panic
  | .ok entry => return if entry.value = wfName then none else some (processId, entry.value)

/-- The text that lists processes of other workflows. The list starts with as many empty entries. -/
def foreignText (existing : List (String × String)) : String :=
  String.intercalate "," (List.replicate existing.length "" ++
    existing.map fun (pName, wName) => "[process: " ++ pName ++ ", workflow: " ++ wName ++ "]")

/-- `validateUniqueProcessIdFor`. -/
def validateUniqueProcessIdFor : Act Unit := do
  nsKVs ns
  let processIds ← mapOrder wf.process.keys
  let found ← processIds.mapM (foreignProcess ns wf.name)
  let existing := found.filterMap id
  if existing = [] then return ()
  else
    let order ← mapOrder (existing.map Prod.fst)
    throw (.text ("These process names already exist under different workflows " ++
      foreignText (order.filterMap fun p => existing.find? fun e => e.1 = p)))

/-- The name of a message that belongs to another workflow. A failed read goes unnoticed. -/
def foreignMessage (ns wfName : String) (msgType : Element) : Act (Option String) := do
  match ← Act.attempt (loadObj ⟨ns, .wfMsgTypes, msgType.name⟩) with
  | .error _ => return none
  | .ok receivers =>
    return if MessageReceivers.associatedWorkflowName receivers = wfName then none
      else some msgType.name

/-- `validateUniqueMessageNames`. -/
def validateUniqueMessageNames : Act Unit := do
  nsKVs ns
  let found ← wf.messages.mapM (foreignMessage ns wf.name)
  let existing := (found.filterMap id).dedup
  let order ← mapOrder existing
  if existing = [] then return ()
  else
    throw (.text ("these messages already exist for other workflows: " ++
      String.intercalate "," order))

/-! ### Service tasks -/

/-- The variables of the output transforms of a task, taken in the given order. -/
def outputVariables (lib : Lib) (j : Element) : List String → Except Err (List String)
  | [] => .ok []
  | varN :: rest =>
    match lib.getVariables ((j.outputTransform.lookup varN).getD "") with
    | .error _ => .error (.text ("an error occurred getting the variables from the output " ++
        "expression for " ++ varN ++ " in service task " ++ j.id))
    | .ok vars =>
      match outputVariables lib j rest with
      | .error e => .error e
      | .ok more => .ok (vars ++ more)

/-- The first mandatory parameter that is not given. -/
def missingParameter (parameters : List Parameter) (given : String → Bool) : Option Parameter :=
  parameters.find? fun val => val.mandatory && !given val.name

/-- The mandatory parameters of a task are given: the inputs by its input transforms, the outputs by
the variables of its output transforms. -/
def checkParameters (j : Element) (outVars : Except Err (List String)) : Except Err (List String) :=
  let parameters := spec.parameters.getD {}
  match missingParameter parameters.input fun name => (j.inputTransform.lookup name).isSome with
  | some val => .error (.text ("mandatory input parameter " ++ val.name ++
      " was expected for service task " ++ j.id))
  | none =>
    match outVars with
    | .error e => .error e
    | .ok outVars =>
      match missingParameter parameters.output fun name => outVars.contains name with
      | some val => .error (.text ("mandatory output parameter " ++ val.name ++
          " was expected for service task " ++ j.id))
      | none => .ok outVars

/-- The retry behaviour of a task: that of its specification, with the number of retries of the
definition if there is one. A specification without behaviour makes it panic (`none`), and so does
one without retry behaviour when there is a number to set. -/
def mergedRetry (j : Element) : Option (Option DefaultTaskRetry) :=
  match spec.behaviour, j.retryBehaviour with
  | none, _ => none
  | some behaviour, none => some behaviour.defaultRetry
  | some behaviour, some retry =>
    if retry.number = 0 then some behaviour.defaultRetry
    else behaviour.defaultRetry.map fun r => some { r with number := retry.number }

/-- What a task does when its retries are exceeded is handled: the variable it sets is one of its
outputs, and the error it throws is declared and caught. -/
def checkExceeded (j : Element) (outVars : List String)
    (exceeded : DefaultRetryExceededBehaviour) : Except Err Unit :=
  match exceeded.action with
  | .setVariableValue =>
    if outVars.contains exceeded.variable_ then .ok ()
    else .error (.text ("retry exceeded output parameter " ++ exceeded.variableValue ++
      " was expected for service task " ++ j.id ++ ", but is not handled"))
  | .throwWorkflowError =>
    match errors.find? fun e => e.code = exceeded.errorCode with
    | none => .error (.text (j.id ++ " retry exceeded error code " ++ exceeded.errorCode ++
        " is not declared"))
    | some wfErr =>
      if j.errors.any fun e => e.errorId = wfErr.id then .ok ()
      else .error (.text (j.id ++ " retry exceeded error code " ++ exceeded.errorCode ++
        " can be thrown but is not handled"))
  | _ => .ok ()

/-- A service task is checked against its specification, and gets its retry behaviour. Without retry
behaviour, or without one for the last failure, it panics (`none`). -/
def checkTask (j : Element) (order : List String) : Option (Except Err Element) :=
  match checkParameters spec j (outputVariables lib j order) with
  | .error e => some (.error e)
  | .ok outVars => do
    let retry ← mergedRetry spec j
    let retry ← retry
    let exceeded ← retry.defaultExceeded
    match checkExceeded errors j outVars exceeded with
    | .error e => return .error e
    | .ok _ => return .ok { j with retryBehaviour := some retry }

/-- The version of the task, which is empty when the lookup fails other than for an unknown task. -/
def taskUID (j : Element) : Act String := do
  match ← Act.attempt (getTaskSpecUID ns j.execute) with
  | .ok id => return id
  | .error e =>
    if e.is .keyNotFound then throw (.wrap ("task " ++ j.execute ++ " is not registered") e)
    else return ""

/-- One service task. -/
def processServiceTask (j : Element) : Act Element := do
  let id ← taskUID ns j
  let j := { j with version := some id }
  let spec ← Act.wrap ("look up task spec for '" ++ j.execute ++ "'") (getTaskSpecByUID ns id)
  let order ← mapOrder j.outputTransform.keys
  let checked ← Act.deref (checkTask lib errors spec j order)
  let j ← Act.ofExcept checked
  Act.wrap ("ensure consumer for service task " ++ j.execute) (svcTaskConsFn id)
  return j

/-- One element. Only service tasks are checked. -/
def processElement (j : Element) : Act Element :=
  if j.type = .serviceTask then processServiceTask lib ns svcTaskConsFn errors j else pure j

/-- The elements of a process, with its service tasks checked. -/
def processElements (lib : Lib) (ns : String) (svcTaskConsFn : String → Act Unit)
    (errors : List Error) : List Element → Act (List Element)
  | [] => return []
  | j :: rest => do
    let j ← processElement lib ns svcTaskConsFn errors j
    let rest ← processElements lib ns svcTaskConsFn errors rest
    return j :: rest

/-- One process: its service tasks are checked, and it is mapped to its workflow. -/
def processTasks
    (wfProcessMappingFn : Workflow → Process → Act Unit) (wf : Workflow) (key : String) :
    Act Workflow := do
  let i := (wf.process.lookup key).getD {}
  let elements ← processElements lib ns svcTaskConsFn wf.errors i.elements
  let i := { i with elements := elements }
  let wf := { wf with process := wf.process.replace key i }
  Act.wrap "store the process to workflow mapping" (wfProcessMappingFn wf i)
  return wf

/-- `ProcessServiceTasks`. The definition is returned as it is after the call. -/
def processServiceTasks
    (wfProcessMappingFn : Workflow → Process → Act Unit) (wf : Workflow) : Act Workflow := do
  let order ← mapOrder wf.process.keys
  order.foldlM (processTasks lib ns svcTaskConsFn wfProcessMappingFn) wf

/-- `ensureServiceTaskConsumer`. -/
def ensureServiceTaskConsumer (ns uid : String) : Act Unit :=
  Act.wrap "add service task consumer"
    (createConsumer ("ServiceTask_" ++ ns ++ "_" ++ uid) (.jobServiceTaskExecute uid))

/-- `createWorkflowProcessMappingFn`. -/
def createWorkflowProcessMapping (i : Process) : Act Unit :=
  Act.wrap "store the workflow process mapping" (kvPut ⟨ns, .wfProcess, i.id⟩ wf.name)

/-! ### Versions -/

/-- `updateKV` with an update function that makes calls of its own and keeps a state, which outlives
a failed attempt. -/
def updateKVWith {S : Type} (l : Loc) (s : S)
    (updateFn : l.Val → S → P (Except Err l.Val × S)) : P (Except Err Unit × S) :=
  .loop s
    (fun s => do
      match ← (kvGet l).run with
      | .error e => return .inr (.error (.wrap "get value to update" e), s)
      | .ok entry =>
        match ← updateFn entry.value s with
        | (.error e, s) =>
          return .inr (.error (.wrap "update function" (.wrap "update function" e)), s)
        | (.ok uv, s) =>
          match ← (kvUpdate l uv entry.revision).run with
          | .error e =>
            if e.is .wrongLastSequence then
              return .inl s
            else
              return .inr (.error (.wrap "update kv" e), s)
          | .ok _ => return .inr (.ok (), s))
    .ret

/-- `UpdateObj` with such an update function. -/
def updateObjWith {S : Type} (l : Loc) (msg : l.Val) (s : S)
    (updateFn : l.Val → S → P (Except Err l.Val × S)) : P (Except Err Unit × S) := do
  let old ← (kvGet l).run
  if isAbsent old then
    match ← (saveObj l msg).run with
    | .error e => return (.error (.wrap "save during update object" e), s)
    | .ok _ => updateKVWith l s updateFn
  else
    updateKVWith l s updateFn

/-- The variables that the update function of `storeWorkflow` captures: the id under which the
workflow is stored or was found, and whether a version was added. -/
structure Stored where
  wfID : String
  newWf : Bool := false
  deriving DecidableEq, Repr

/-- A version that is new is stored under the id at hand, before it is known whether the update of
the list of versions goes through. -/
def addNewVersion (hash : Bytes) (v : WorkflowVersions) (s : Stored) :
    P (Except Err WorkflowVersions × Stored) := do
  match ← (saveObj ⟨ns, .wf, s.wfID⟩ wf).run with
  | .error _ => return (.error (.text ("save workflow: " ++ wf.name)), { s with newWf := true })
  | .ok _ => return (.ok { v with version := v.version ++
      [⟨s.wfID, hash, .ofNat v.version.length + 1⟩] }, { s with newWf := true })

/-- The update function of `storeWorkflow`. -/
def addVersion (hash : Bytes) (v : WorkflowVersions) (s : Stored) :
    P (Except Err WorkflowVersions × Stored) :=
  match v.version.getLast? with
  | none => addNewVersion ns wf hash v s
  | some newest =>
    if hash = newest.sha256 then return (.ok v, { s with wfID := newest.id })
    else addNewVersion ns wf hash v s

/-- The message types of a workflow, each with a client task and a consumer. -/
def ensureMessageBucket (m : Element) : Act Unit := do
  Act.mapError (fun e => .workflowFatal e none)
    (save ⟨ns, .wfMsgTypes, m.name⟩ ((wf.messageReceivers.lookup m.name).getD {}))
  let ks ← newId
  Act.wrap "create a client task during workflow creation"
    (save ⟨ns, .wfClientTask, wf.name ++ "_" ++ m.name⟩ ks)
  Act.wrap "add service task consumer"
    (createConsumer ("ServiceTask_" ++ ns ++ "_" ++ wf.name ++ "_" ++ m.name)
      (.jobSendMessageExecute (wf.name ++ "_" ++ m.name)))

/-- `ensureMessageBuckets`. -/
def ensureMessageBuckets : Act Unit := do
  nsKVs ns
  wf.messages.forM (ensureMessageBucket ns wf)

/-- The state that starts a timer of a process. -/
def timedStart (pr : Process) (el : Element) (t : Int) : WorkflowState where
  workflowId := wfID
  elementId := el.id
  elementName := el.name
  unixTimeNano := t
  timer := some ⟨0, 0⟩
  workflowName := wf.name
  processId := pr.id

/-- `forEachTimedStartElement`. -/
def forEachTimedStartElement (pr : Process) (fn : Element → Act Unit) : Act Unit :=
  (pr.elements.filter fun i => i.type = .timedStartEvent).forM fun i =>
    Act.wrap "timed start event execution" (fn i)

/-- The timers of a process are started. -/
def startTimers (wfID key : String) : Act Unit := do
  let pr := (wf.process.lookup key).getD {}
  Act.wrap ("initialize all workflow timed start events for " ++ pr.id)
    (forEachTimedStartElement pr fun el => do
      let t ← now
      let _ ← Act.wrap "publish workflow timed execute"
        (publishWorkflowState ns .timedExecute (timedStart wf wfID pr el t)))

/-- The end of `storeWorkflow`, once a version was added. -/
def announceVersion : Act String := do
  Act.wrap "create workflow message buckets" (ensureMessageBuckets ns wf)
  let order ← mapOrder wf.process.keys
  order.forM (startTimers ns wf wfID)
  return wfID

/-- The middle of `storeWorkflow`: the version of the definition is found or added. -/
def storeVersion : Act Stored := do
  let (updated, stored) ← (updateObjWith ⟨ns, .wfVersion, wf.name⟩ ({} : WorkflowVersions)
    { wfID := wfID } (addVersion ns wf (getHash wf)) : P (Except Err Unit × Stored))
  Act.mapError (fun _ => .text ("update workflow version for: " ++ wf.name))
    (Act.ofExcept updated)
  return stored

/-- The end of `storeWorkflow`: the service tasks are checked, and a version that is new is added
and announced. -/
def storeChecked : Act String := do
  let wf ← processServiceTasks lib ns (ensureServiceTaskConsumer ns)
    (createWorkflowProcessMapping ns) wf
  let stored ← storeVersion getHash ns wf wfID
  if stored.newWf then announceVersion ns wf stored.wfID else return stored.wfID

/-- `storeWorkflow`. -/
def storeWorkflow : Act String := do
  Act.wrap "process names are not unique" (validateUniqueProcessIdFor ns wf)
  Act.wrap "message names are not globally unique" (validateUniqueMessageNames ns wf)
  nsKVs ns
  let wfID ← newId
  storeChecked lib getHash ns wf wfID

/-- `LoadWorkflow`. -/
def loadWorkflowDefinition : Act String :=
  Act.wrap "store workflow" (storeWorkflow lib getHash ns wf)

/-- `resolveWorkflow`: the service tasks are checked, and nothing is stored. -/
def resolveWorkflow (lib : Lib) (ns : String) (wf : Workflow) : Act Workflow :=
  Act.wrap "resolveWorkflow" (processServiceTasks lib ns (fun _ => pure ()) (fun _ _ => pure ()) wf)

/-- `StreamWorkflowVersions`. -/
def streamWorkflowVersions (ns workflowName : String) : Act (List WorkflowVersion) := do
  let ver ← loadFor ⟨ns, .wfVersion, workflowName⟩ "load object" .workflowVersionNotFound
    "load workflow from KV"
  return (ver : WorkflowVersions).version

end SharWorkflow
