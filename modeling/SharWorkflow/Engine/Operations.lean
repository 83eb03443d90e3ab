import SharWorkflow.Nats.Util
import SharWorkflow.Model.Vars

/-!
# Operations

The functions of `operations.go`, `history.go` and `taskspec.go` that the handlers of the engine
are built from: publication of a state, the history of a process instance, and access to
executions, process instances, workflows, jobs and owners. `ns` is the namespace of the context
in which they run.
-/

namespace SharWorkflow

open Concurrent

variable (lib : Lib) (ns : String) (subject : Subject) (job : WorkflowState) (el : Element)
  (state : WorkflowState)

/-! ### Publishing -/

/-- `TxJS.PublishMsg`. -/
def publishMsg (m : Msg) : Act Unit := (Prog.perform (Op.publish m) : P (Ans (Op.publish m)))

/-- `openUserTask`. -/
def openUserTask (ns owner id : String) : Act Unit := do
  nsKVs ns
  Act.wrap "update user task object" do
    let _ ← updateObj ⟨ns, .wfUserTasks, owner⟩ ([] : List String) fun (tasks : List String) =>
      .ok (tasks ++ [id])

/-- The state with the time at which it is published. -/
@[simps]
def WorkflowState.stamped (time : Int) : WorkflowState :=
  { state with unixTimeNano := time }

/-- `PublishWorkflowState`. It stamps the time on the state, which is returned as it is after
the call, and opens a user task for each owner and group when the state starts one. -/
def publishWorkflowState (embargo : Int := 0) : Act WorkflowState := do
  let t ← now
  let state := state.stamped t
  Act.wrap "publish workflow state message" (publishMsg ⟨ns, subject, .state state, embargo⟩)
  if subject = .jobUserTaskExecute then
    (state.owners ++ state.groups).forM fun i =>
      Act.wrap "open user task during publish workflow state"
        (openUserTask ns i (TrackingID.ID state.id))
  return state

/-! ### History -/

/-- The number of a history type in the schema. -/
def ProcessHistoryType.number : ProcessHistoryType → Nat
  | processExecute => 0
  | activityExecute => 1
  | activityComplete => 2
  | processSpawnSync => 3
  | processComplete => 4
  | processAbort => 5
  | activityAbort => 6
  | jobAbort => 7
  | jobExecute => 8
  | jobComplete => 9
  | compensationCheckpoint => 10

/-- The key of a history entry. -/
def historyKey (processInstanceId trackingId : String) (historyType : ProcessHistoryType) :
    String :=
  processInstanceId ++ "." ++ trackingId ++ "." ++ toString historyType.number

/-- The location of a history entry. -/
abbrev historyLoc (ns processInstanceId trackingId : String) (historyType : ProcessHistoryType) :
    Loc :=
  ⟨ns, .wfHistory, historyKey processInstanceId trackingId historyType⟩

/-- The history entry that is recorded for a state. -/
def historyEntry (historyType : ProcessHistoryType) : ProcessHistoryEntry where
  id := state.id
  itemType := historyType
  workflowId := some state.workflowId
  executionId := some state.executionId
  elementId := some state.elementId
  elementName := some state.elementName
  processInstanceId := some state.processInstanceId
  cancellationState := some state.state
  vars := state.vars
  timer := state.timer
  error := state.error
  unixTimeNano := state.unixTimeNano
  execute := state.execute
  processId := state.processId
  satisfiesGatewayExpectation := state.satisfiesGatewayExpectation
  gatewayExpectations := state.gatewayExpectations
  workflowName := state.workflowName
  previousElement := state.previousElement
  previousActivity := state.previousActivity

/-- `RecordHistory`. A failed write is fatal for the workflow. -/
def recordHistory (historyType : ProcessHistoryType) : Act Unit := do
  nsKVs ns
  Act.mapError (fun e => .workflowFatal (.wrap "recording history" e) none)
    (saveObj (historyLoc ns state.processInstanceId (TrackingID.ID state.id) historyType)
      (historyEntry state historyType))

/-- `RecordHistoryProcessStart`. -/
def recordHistoryProcessStart (ns : String) (state : WorkflowState) : Act Unit :=
  Act.wrap "recordHistoryProcessStart" (recordHistory ns state .processExecute)

/-- `RecordHistoryActivityExecute`. -/
def recordHistoryActivityExecute (ns : String) (state : WorkflowState) : Act Unit :=
  Act.wrap "recordHistoryActivityExecute" (recordHistory ns state .activityExecute)

/-- `RecordHistoryActivityComplete`. -/
def recordHistoryActivityComplete (ns : String) (state : WorkflowState) : Act Unit :=
  Act.wrap "recordHistoryActivityComplete" (recordHistory ns state .activityComplete)

/-- `RecordHistoryCompensationCheckpoint`. -/
def recordHistoryCompensationCheckpoint (ns : String) (state : WorkflowState) : Act Unit :=
  Act.wrap "recordHistoryCompensationCheckpoint" (recordHistory ns state .compensationCheckpoint)

/-- `RecordHistoryJobExecute`. -/
def recordHistoryJobExecute (ns : String) (state : WorkflowState) : Act Unit :=
  Act.wrap "recordHistoryJobExecute" (recordHistory ns state .jobExecute)

/-- `RecordHistoryJobComplete`. -/
def recordHistoryJobComplete (ns : String) (state : WorkflowState) : Act Unit :=
  Act.wrap "recordHistoryJobComplete" (recordHistory ns state .jobComplete)

/-- `GetProcessHistoryItem`. -/
def getProcessHistoryItem (ns processInstanceID trackingID : String)
    (historyType : ProcessHistoryType) : Act ProcessHistoryEntry := do
  Act.wrap "get key value stores for namespace" (kvsFor ns)
  let entry ← Act.wrap "get history entry"
    (kvGet (historyLoc ns processInstanceID trackingID historyType))
  return entry.value

/-! ### Executions, process instances and workflows -/

/-- An object is loaded. An absent one is an error of its own, `absent` with the text `missing`;
any other error gets the text `failed`. -/
def loadFor (l : Loc) (missing : String) (absent : Sentinel) (failed : String) : Act l.Val := do
  nsKVs l.ns
  Act.mapError
    (fun e => if e.is .keyNotFound then .wrap missing (.sentinel absent) else .wrap failed e)
    (loadObj l)

/-- `GetExecution`. -/
def getExecution (ns executionID : String) : Act Execution :=
  loadFor ⟨ns, .wfExecution, executionID⟩ "get execution failed to load object"
    .executionNotFound "load execution from KV"

/-- `GetProcessInstance`. -/
def getProcessInstance (ns processInstanceID : String) : Act ProcessInstance :=
  loadFor ⟨ns, .wfProcessInstance, processInstanceID⟩
    "get process instance failed to load instance" .processInstanceNotFound
    "get process instance failed to load instance"

/-- The definition of a workflow from the store. -/
def loadWorkflow (ns workflowID : String) : Act Workflow :=
  loadFor ⟨ns, .wf, workflowID⟩ "get workflow failed to load object" .workflowNotFound
    "load workflow from KV"

/-- The cache lookup of `Cacheable`. -/
def cacheGet (workflowID : String) : Act (Option Workflow) :=
  (Prog.perform (Op.cacheGet workflowID) : P (Option Workflow)).bind fun r => .ret (.ok r)

/-- The cache write of `Cacheable`. -/
def cacheSet (workflowID : String) (workflow : Workflow) : Act Unit :=
  (Prog.perform (Op.cacheSet workflowID workflow) : P Unit).bind fun _ => .ret (.ok ())

/-- `GetWorkflow`, through the cache. -/
def getWorkflow (ns workflowID : String) : Act Workflow :=
  Act.wrap "error caching GetWorkflow" do
    match ← cacheGet workflowID with
    | some workflow => return workflow
    | none =>
      let workflow ← Act.wrap ("error retrieving cacheable value for key " ++ workflowID)
        (loadWorkflow ns workflowID)
      cacheSet workflowID workflow
      return workflow

/-- `hasValidExecution`. -/
def hasValidExecution (ns executionId : String) : Act Execution :=
  Act.mapError (fun e => if e.is .executionNotFound then .wrap "orphaned activity" e else e)
    (getExecution ns executionId)

/-- `hasValidProcess`. -/
def hasValidProcess (ns processInstanceId executionId : String) :
    Act (ProcessInstance × Execution) := do
  let execution ← hasValidExecution ns executionId
  let pi ← Act.mapError
    (fun e => if e.is .processInstanceNotFound then .wrap "orphaned activity" e else e)
    (getProcessInstance ns processInstanceId)
  return (pi, execution)

/-- `getElement`. A failed read of the definition is not noticed, and the element is not found. -/
def getElement : Act Element := do
  nsKVs ns
  let wf ← match ← Act.attempt (loadObj ⟨ns, .wf, state.workflowId⟩) with
    | .ok wf => pure (wf : Workflow)
    | .error e =>
      if e.is .keyNotFound then throw (.wrap "load object during get element" e)
      else pure ({} : Workflow)
  match (elementTable wf).lookup state.elementId with
  | some el => return el
  | none =>
    throw (.wrap ("get element failed to locate " ++ state.elementId) (.sentinel .elementNotFound))

/-! ### Jobs -/

/-- `createJob`: stores the job under a fresh id, which is pushed onto the job's own stack. The
job is returned as it is after the call. -/
def createJob : Act WorkflowState := do
  nsKVs ns
  let tid ← newId
  let job := { job with id := TrackingID.push job.id tid }
  Act.wrap "save job to KV" (saveObj ⟨ns, .job, tid⟩ job)
  return job

/-- `GetJob`. -/
def getJob (ns trackingID : String) : Act WorkflowState :=
  loadFor ⟨ns, .job, trackingID⟩ "get job failed to load workflow object" .jobNotFound
    "load job from KV"

/-- `DeleteJob`. -/
def deleteJob (ns trackingID : String) : Act Unit := do
  nsKVs ns
  Act.wrap "delete job" (delete ⟨ns, .job, trackingID⟩)

/-! ### Task specifications and owners -/

/-- An object is loaded. Any error gets the text. -/
def loadFrom (l : Loc) (text : String) : Act l.Val := do
  nsKVs l.ns
  Act.wrap text (loadObj l)

/-- `GetTaskSpecVersions`. -/
def getTaskSpecVersions (ns name : String) : Act (List String) :=
  loadFrom ⟨ns, .wfTaskSpecVer, name⟩ "opening task spec versions"

/-- `GetTaskSpecUID`. -/
def getTaskSpecUID (ns name : String) : Act String := do
  let tskVer ← Act.wrap "opening task spec versions" (getTaskSpecVersions ns name)
  Act.deref tskVer.getLast?

/-- `GetTaskSpecByUID`. -/
def getTaskSpecByUID (ns uid : String) : Act TaskSpec :=
  loadFrom ⟨ns, .wfTaskSpec, uid⟩ "loading task spec"

/-- `OwnerID`: the id of an owner or group, assigned on first use. -/
def ownerID (ns name : String) : Act String := do
  nsKVs ns
  let name := if name = "" then "AnyUser" else name
  match ← Act.attempt (kvGet ⟨ns, .ownerID, name⟩) with
  | .ok nm => return nm.value
  | .error e =>
    if e.is .keyNotFound then
      let id ← newId
      Act.wrap "write owner ID" (kvPut ⟨ns, .ownerID, name⟩ id)
      Act.wrap "store owner name in kv" (kvPut ⟨ns, .ownerName, id⟩ name)
      return id
    else
      throw (.wrap "get owner id" e)

/-- `OwnerName`. -/
def ownerName (ns id : String) : Act String := do
  nsKVs ns
  let nm ← Act.wrap "get owner name for id" (kvGet ⟨ns, .ownerName, id⟩)
  return nm.value

/-- The ids of several owners. -/
def ownerIDs (ns : String) : List String → Act (List String)
  | [] => return []
  | v :: vs => do
    let id ← Act.wrap "evaluate owners failed to get owner ID" (ownerID ns v)
    let ids ← ownerIDs ns vs
    return id :: ids

/-- `evaluateOwners`. -/
def evaluateOwners (ns owners : String) (vals : GoMap Value) : Act (List String) :=
  match lib.evalInterface owners vals with
  | .error e => throw (.workflowFatal e none)
  | .ok (.string group) => ownerIDs ns [group]
  | .ok (.stringList groups) => ownerIDs ns groups
  | .ok _ => return []

/-- A longer subject. -/
def Subject.append : Subject → String → Subject
  | jobServiceTaskExecute uid, s => jobServiceTaskExecute (uid ++ s)
  | jobSendMessageExecute suffix, s => jobSendMessageExecute (suffix ++ s)
  | subject, _ => subject

/-- The variables of a job: a message catch event keeps those of the state, any other job gets
those of the input transform. -/
def jobVars (v : Bytes) : Except Err Bytes :=
  if el.type = .messageIntermediateCatchEvent then .ok job.vars
  else
    match lib.inputVars .listed v [] el.inputTransform.field with
    | .ok b => .ok b
    | .error e =>
      .error (.workflowFatal (.wrap "start job failed to get input variables" e) none)

/-- The owners and groups of a user task. -/
def jobOwners (v : Bytes) : Act WorkflowState :=
  if el.type = .userTask then
    match lib.readVars v with
    | .error e =>
      throw (.workflowFatal (.wrap "start job failed to decode input variables" e) none)
    | .ok vx => do
      let owners ← Act.mapError
        (fun e => .workflowFatal (.wrap "start job: evaluate owners" e) none)
        (evaluateOwners lib ns el.candidates vx)
      let groups ← Act.mapError
        (fun e => .workflowFatal (.wrap "start job failed to evaluate groups" e) none)
        (evaluateOwners lib ns el.candidateGroups vx)
      return { job with owners := owners, groups := groups }
  else return job

/-- The subject of a job: a service task that is mocked is routed to the mock executor. -/
def jobSubject : Act Subject :=
  if el.type = .serviceTask then do
    let version ← Act.deref el.version
    let spec ← Act.wrap "get task spec by uid" (getTaskSpecByUID ns version)
    if (spec.behaviour.map (·.mock)).getD false then
      return subject.append ".Mock"
    else
      return subject
  else return subject

/-- A job is published and recorded. -/
def announceJob : Act Unit := do
  let job ← Act.wrap "start job failed to publish" (publishWorkflowState ns subject job)
  Act.wrap "job start failed to record history" (recordHistoryJobExecute ns job)

/-- `startJob`: evaluates the inputs of the job, stores it, publishes it and records it. A job with
instructions for multi-instance execution is only stored. -/
def startJob (v : Bytes) : Act Unit := do
  let job := { job with
    execute := some el.execute
    executeVersion := el.version.getD job.executeVersion }
  let vars ← Act.ofExcept (jobVars lib job el v)
  let job ← jobOwners lib ns { job with vars := vars } el v
  let subject ← jobSubject ns subject el
  let job ← Act.wrap "create job" (createJob ns job)
  Act.when (el.iteration = false) (announceJob ns subject job)

end SharWorkflow
