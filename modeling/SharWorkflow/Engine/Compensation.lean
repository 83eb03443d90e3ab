import SharWorkflow.Engine.Activity

/-!
# Compensation

The functions of `compensation.go`: the compensation of a process is planned, its jobs are started
one after the other, and completed. A compensate end event publishes a plan: the completed jobs of
the process that have a compensation, the latest one first. When the job of the last step completes,
so does the end event.
-/

namespace SharWorkflow

open Concurrent

variable (durable : String) (lib : Lib) (ns : String) (job : WorkflowState) (state : WorkflowState)
  (els : GoMap Element)

/-- `GetProcessHistory`: the history of a process instance in the order of its keys. -/
def getProcessHistory (ns processInstanceId : String) : Act (List ProcessHistoryEntry) := do
  nsKVs ns
  let keys ← Act.wrap "get process history" (keyPrefixSearch ns .wfHistory processInstanceId)
  keys.mapM fun key => Act.wrap "get process history item" (loadObj ⟨ns, .wfHistory, key⟩)

/-- `CreateConsumer`. -/
def createConsumer (filter : Subject) : Act Unit :=
  (Prog.perform (Op.createConsumer durable filter) : P (Ans (Op.createConsumer durable filter)))

/-- A job that is to be compensated: when it was executed, and the key of its history entry. -/
structure CompensationStep where
  unixTime : Int
  item : String

/-- The step that compensates for a history entry, if there is one: the entry is a job of an
element with a compensation, and its activity has completed. -/
def compensationStep (entry : ProcessHistoryEntry) : Act (Option CompensationStep) :=
  if entry.compensating ∨ entry.itemType ≠ .jobExecute then return none
  else do
    let elementId ← Act.deref entry.elementId
    let el ← Act.deref (els.lookup elementId)
    if el.compensateWith = none then return none
    else
      let processInstanceId ← Act.deref entry.processInstanceId
      match ← Act.attempt (kvGet (historyLoc ns processInstanceId
        (TrackingID.parentID entry.id) .activityComplete)) with
      | .ok _ => return some ⟨entry.unixTimeNano,
          historyKey processInstanceId (TrackingID.ID entry.id) entry.itemType⟩
      | .error e =>
        if e.is .keyNotFound then return none
        else return some ⟨entry.unixTimeNano,
          historyKey processInstanceId (TrackingID.ID entry.id) entry.itemType⟩

/-- The steps of a compensation, the latest job first. -/
def compensationPlan (history : List ProcessHistoryEntry) : Act (List CompensationStep) := do
  let steps ← history.mapM (compensationStep ns els)
  return (steps.filterMap id).mergeSort fun a b => b.unixTime ≤ a.unixTime

/-- `Compensate`. -/
def compensate (ns : String) (state : WorkflowState) : Act Unit := do
  Act.wrap "get kvs for compensate" (kvsFor ns)
  let wf ← Act.wrap "get workflow" (getWorkflow ns state.workflowId)
  let pr ← Act.deref (wf.process.lookup state.processId)
  let stateID := TrackingID.ID state.id
  Act.wrap "create compensation consumer"
    (createConsumer ("comp_plan_" ++ stateID) (.compensate stateID))
  let history ← Act.wrap "get process history" (getProcessHistory ns state.processInstanceId)
  let plan ← compensationPlan ns (processTable pr) history
  plan.zipIdx.forM fun (v, i) => Act.wrap "publish compensation plan entry"
    (publishMsg ⟨ns, .compensate stateID, .planEntry i plan.length v.item, 0⟩)
  let _ ← Act.wrap "publish compensation state"
    (publishWorkflowState ns .processCompensate { state with state := .compensating })

/-! ### The steps of a plan -/

/-- The next entry of a plan, from its consumer. -/
def fetchEntry (filter : Subject) : Act (Option PlanEntry) :=
  (Prog.perform (Op.fetch durable filter) : P (Ans (Op.fetch durable filter)))

/-- The entry is acknowledged. -/
def ackPlanEntry : Act Unit :=
  (Prog.perform (Op.ackEntry durable) : P (Ans (Op.ackEntry durable)))

/-- The job that compensates for a job of the history, by way of the element `el`. -/
def compensationJob (jobExe : ProcessHistoryEntry) (workflowId : String)
    (el : Element) (entry : PlanEntry) (time : Int) : WorkflowState where
  workflowId := workflowId
  elementId := el.id
  elementType := el.type
  elementName := el.name
  id := state.id
  execute := some el.execute
  state := .compensating
  unixTimeNano := time
  vars := state.vars
  workflowName := state.workflowName
  processId := state.processId
  processInstanceId := state.processInstanceId
  compensation := some ⟨entry.step, entry.steps, TrackingID.ID jobExe.id⟩
  executionId := jobExe.executionId.getD ""
  executeVersion := el.version.getD ""

/-- The element that compensates for a job of the history. -/
def compensatingElement (jobExe : ProcessHistoryEntry) : Option Element := do
  let elementId ← jobExe.elementId
  let originalElement ← els.lookup elementId
  let compensateWith ← originalElement.compensateWith
  els.lookup compensateWith

/-- The step of the plan whose job has the given history entry: its compensation job is started. -/
def compensateFor (entry : PlanEntry) (jobExe : ProcessHistoryEntry) : Act Unit := do
  let el ← Act.deref (compensatingElement els jobExe)
  let workflowId ← Act.deref jobExe.workflowId
  let time ← now
  let job := compensationJob state jobExe workflowId el entry time
  Act.wrap "record compensation checkpoint" (recordHistoryCompensationCheckpoint ns job)
  Act.when (el.type = .serviceTask) (Act.wrap "start job"
    (startJob lib ns (.jobServiceTaskExecute job.executeVersion) job el state.vars))

/-- The handler of `processProcessCompensate`. -/
def processProcessCompensate : Handler Bool := do
  let wf ← Act.acking false (Act.wrap "get workflow" (getWorkflow ns state.workflowId))
  let pr ← Act.acking false (Act.deref (wf.process.lookup state.processId))
  let durable := "comp_plan_" ++ TrackingID.ID state.id
  let fetched ← Act.acking false (Act.wrap "get compensation plan entry"
    (fetchEntry durable (.compensate (TrackingID.ID state.id))))
  -- a plan without another entry is a nil message
  let entry ← Act.acking false (Act.deref fetched)
  Act.acking false (Act.wrap "ack compensation plan entry" (ackPlanEntry durable))
  Act.acking false (Act.wrap "get key value stores for namespace" (kvsFor ns))
  let v ← Act.acking false (Act.wrap "get compensation history entry"
    (kvGet ⟨ns, .wfHistory, entry.item⟩))
  Act.acking false (compensateFor lib ns state (processTable pr) entry v.value)
  return true

/-- The variables of an entry that the history has for a job. -/
def getHistoryVariables (historyType : ProcessHistoryType)
    (ns processInstanceId trackingId : String) : Act Bytes := do
  let entry ← Act.wrap "get compensation history entry"
    (getProcessHistoryItem ns processInstanceId trackingId historyType)
  return entry.vars

/-- `GetCompensationInputVariables`. -/
def getCompensationInputVariables : String → String → String → Act Bytes :=
  getHistoryVariables .jobExecute

/-- `GetCompensationOutputVariables`. -/
def getCompensationOutputVariables : String → String → String → Act Bytes :=
  getHistoryVariables .jobComplete

/-! ### Completed compensation jobs -/

/-- The state of the activity that is compensated, once its last step is done. -/
def compensatedState (id : TrackingID) (vars : Bytes) (elementId elementName :
    String) (type : ElementType) : WorkflowState :=
  dropStateParams { job with
    vars := vars
    state := .executing
    elementId := elementId
    elementType := type
    elementName := elementName
    id := id }

/-- A compensate end event ends its process. -/
def completeCompensatedProcess (el : Element) : Act Unit :=
  Act.when (state.elementType = .compensateEndEvent) do
    let vars ← Act.wrap "transform output vars"
      (Act.ofCall (lib.outputVars .listed state.vars [] el.outputTransform.field))
    let _ ← Act.wrap "publish workflow status"
      (publishWorkflowState ns .processComplete { state with
        id := [state.processInstanceId]
        state := .completed
        vars := vars })

/-- The last step of a compensation: the activity that started it is complete. -/
def finishCompensation (id : TrackingID) (vars : Bytes) (els : GoMap Element) : Act Unit := do
  let activity ← Act.wrap "get compensation history activity entry"
    (getProcessHistoryItem ns job.processInstanceId (TrackingID.ID id) .activityExecute)
  let elementId ← Act.deref activity.elementId
  let el ← Act.deref (els.lookup elementId)
  let elementName ← Act.deref activity.elementName
  let state ← Act.wrap "publish compensation activity complete"
    (publishWorkflowState ns .activityComplete
      (compensatedState job id vars elementId elementName el.type))
  Act.wrap "record history activity complete for compensation"
    (recordHistoryActivityComplete ns state)
  completeCompensatedProcess lib ns state el

/-- `compensationJobComplete`. -/
def compensationJobComplete : Act Unit := do
  let id := TrackingID.pop job.id
  let checkpoint ← Act.wrap "get compensation checkpoint"
    (getProcessHistoryItem ns job.processInstanceId (TrackingID.ID id) .compensationCheckpoint)
  let wf ← Act.wrap "get workflow" (getWorkflow ns job.workflowId)
  let pr ← Act.deref (wf.process.lookup job.processId)
  let els := processTable pr
  let el ← Act.deref (els.lookup job.elementId)
  let vars ← Act.wrap "transform output vars"
    (Act.ofCall (lib.outputVars .listed job.vars checkpoint.vars el.outputTransform.field))
  let compensation ← Act.deref job.compensation
  if compensation.step = compensation.totalSteps - 1 then
    finishCompensation lib ns job id vars els
  else
    let _ ← Act.wrap "publish workflow state"
      (publishWorkflowState ns .processCompensate { job with vars := vars, id := id })

/-- The handler of `processCompletedJobs`. -/
def processCompletedJobs : Handler Bool := do
  let some _ ← Act.acking false (Act.optional [.executionNotFound, .processInstanceNotFound]
    (hasValidProcess ns job.processInstanceId job.executionId)) | return true
  Act.acking false (if job.state = .compensating then
      Act.wrap "complete compensation" (compensationJobComplete lib ns job)
    else completeJobProcessor lib ns job)
  return true

end SharWorkflow
