import SharWorkflow.Engine.Operations

/-!
# Activities

The functions of `engine.go` by which a token leaves an activity.

* `completeActivity`: the activity is done.
* `traverse`: the token is sent along the outgoing branches whose conditions hold. A split that is
  paired with a join opens a gateway instance first, and every token it sends carries the instance
  and the branch by which it goes (`branchState`).
* `completeJobProcessor`: the job of an activity is done, and so is the activity. The state of the
  activity comes from the history (`workfFlowStateFrom`).
* `activityCompleteProcessor`: the token of a finished activity traverses; at the end of a called
  process the job of the caller is completed.
-/

namespace SharWorkflow

open Concurrent

variable (lib : Lib) (ns : String) (state : WorkflowState)

/-- `errors.Fn`: the qualified name of a method of the engine. -/
def fnName (name : String) : String :=
  "gitlab.com/shar-workflow/shar/internal/server/workflow.(*Engine)." ++ name

/-- `engineErr`. -/
def engineErr {α : Type} (x : Act α) : Act α := Act.wrap "engine-error" x

/-- `completeActivity`. The state is returned as it is after the call. -/
def completeActivity : Act WorkflowState := do
  let state ← engineErr (publishWorkflowState ns .activityComplete (dropStateParams state))
  engineErr (Act.mapError (fun e => .workflowFatal e none) (recordHistoryActivityComplete ns state))
  return state

/-! ### Traversal -/

/-- Whether all conditions of a branch hold. -/
def conditionsHold (lib : Lib) (vars : Bytes) : List String → Except Err Bool
  | [] => .ok true
  | ex :: rest =>
    match lib.readVars vars with
    | .error e => .error (.wrap "decode variables for condition evaluation" e)
    | .ok vals =>
      match lib.evalBool ex vals with
      | .error e => .error (.workflowFatal e none)
      | .ok false => .ok false
      | .ok true => conditionsHold lib vars rest

/-- The branches whose conditions hold, from the ordinal `ord` on, added to `taken`. The default
branch is left out. -/
def takenTargets (lib : Lib) (vars : Bytes) (defaultTarget : Int) :
    Nat → List Target → GoMap String → Except Err (GoMap String)
  | _, [], taken => .ok taken
  | ord, t :: rest, taken =>
    if (ord : Int) = defaultTarget then takenTargets lib vars defaultTarget (ord + 1) rest taken
    else
      match conditionsHold lib vars t.conditions with
      | .error e => .error e
      | .ok ok =>
        takenTargets lib vars defaultTarget (ord + 1) rest
          (if ok then taken.insert t.id t.target else taken)

/-- The default branch, unless its ordinal is out of range. -/
def Targets.default? (outbound : Targets) : Option Target :=
  if 0 ≤ outbound.defaultTarget then outbound.target[outbound.defaultTarget.toNat]? else none

/-- The branches that the token takes: those whose conditions hold, or else the default one. A
default branch that is out of range makes it panic (`none`). -/
def chosenTargets (vars : Bytes) (outbound : Targets) : Option (Except Err (GoMap String)) :=
  match takenTargets lib vars outbound.defaultTarget 0 outbound.target ∅ with
  | .error e => some (.error e)
  | .ok taken =>
    if taken.entries.isEmpty ∧ outbound.defaultTarget ≠ -1 then
      outbound.default?.map fun t => .ok (taken.insert t.id t.target)
    else some (.ok taken)

/-- The join that a split is paired with. Any other element gives the empty id; a gateway without a
specification makes it panic (`none`). -/
def splitReciprocal (elem : Element) : Option String :=
  if elem.type = .gateway then
    elem.gateway.map fun gateway =>
      if gateway.direction = .divergent then gateway.reciprocalId else ""
  else some ""

/-- Whether the element is a join that is not paired with a split. A gateway without a specification
makes it panic (`none`). -/
def isSolitaryJoin (target : Element) : Option Bool :=
  if target.type = .gateway then
    target.gateway.map fun gateway => gateway.direction = .convergent ∧ gateway.reciprocalId = ""
  else some false

/-- The gateway that a split with the variables `vars` opens. -/
def openedGateway (vars : Bytes) : Gateway := ⟨∅, [vars], 0⟩

/-- The token leaves its activity. -/
def WorkflowState.leaving : WorkflowState :=
  { state with
    previousActivity := TrackingID.ID state.id
    previousElement := state.elementId }

/-- The token carries the branches that the gateway instance `iid` expects. -/
def WorkflowState.expecting (iid : String) (paths : List String) : WorkflowState :=
  { state with gatewayExpectations := state.gatewayExpectations.insert iid ⟨paths⟩ }

/-- A split that is paired with a join expects the branches it takes at the join, and opens the
gateway instance `iid`. -/
def openGateway (targets : GoMap String) (reciprocalId iid : String) : Act WorkflowState :=
  if reciprocalId = "" then return state
  else do
    let expectedPaths ← mapOrder targets.keys
    Act.wrap "traverse get kvs for ns" (kvsFor ns)
    Act.wrap (fnName "traverse" ++ " failed to save gateway to KV")
      (saveObj ⟨ns, .wfGateway, iid⟩ (openedGateway state.vars))
    return state.expecting iid expectedPaths

/-- The token notes for the join `key` by which branch it was sent. -/
def WorkflowState.track (ws : WorkflowState) (key branch : String) : WorkflowState :=
  let tracking := ((ws.satisfiesGatewayExpectation.lookup key).map (·.instanceTracking)).getD []
  { ws with
    satisfiesGatewayExpectation :=
      ws.satisfiesGatewayExpectation.insert key ⟨tracking ++ [branch]⟩ }

/-- The token that is sent to `target` along the branch `branchID`. -/
def branchState (id : TrackingID) (target : Element) (name : String)
    (solitary : Bool) (reciprocalId iid branchID : String) : WorkflowState :=
  let ws := { state with
    id := id
    elementType := target.type
    elementId := target.id
    elementName := name }
  let ws := if solitary then ws.track target.id ("-," ++ branchID) else ws
  if reciprocalId = "" then ws else ws.track reciprocalId (iid ++ "," ++ branchID)

theorem branchState_elementId (state : WorkflowState) (id : TrackingID) (target : Element)
    (name : String) (solitary : Bool) (reciprocalId iid branchID : String) :
    (branchState state id target name solitary reciprocalId iid branchID).elementId = target.id :=
      by
  unfold branchState
  cases solitary <;> dsimp only <;> split <;> rfl

/-- The token is sent along one branch, to the element `elID`. -/
def sendBranch (trackingID : TrackingID) (el : GoMap Element)
    (state : WorkflowState) (reciprocalId iid branchID elID : String) : Act Unit := do
  let newID ← newId
  let target ← Act.deref (el.lookup elID)
  let wf ← Act.mapError (fun e => .workflowFatal (.wrap "get workflow" e) none)
    (getWorkflow ns state.workflowId)
  let pr ← Act.deref (wf.process.lookup state.processId)
  let named ← Act.deref ((processTable pr).lookup target.id)
  let solitary ← Act.deref (isSolitaryJoin target)
  let _ ← Act.wrap "publish workflow state"
    (publishWorkflowState ns .traversalExecute
      (branchState state (trackingID.push newID) target named.name solitary reciprocalId iid
        branchID))

/-- `traverse`. The state is returned as it is after the call. -/
def traverse (trackingID : TrackingID) (outbound : Option Targets)
    (el : GoMap Element) (state : WorkflowState) : Act WorkflowState := do
  match outbound with
  | none => return state.leaving
  | some outbound =>
    let chosen ← Act.deref (chosenTargets lib state.vars outbound)
    let targets ← Act.ofExcept chosen
    let elem ← Act.deref (el.lookup state.elementId)
    let reciprocalId ← Act.deref (splitReciprocal elem)
    let iid ← newId
    let state ← openGateway ns state.leaving targets reciprocalId iid
    let branches ← mapOrder targets.keys
    branches.forM fun branchID =>
      sendBranch ns trackingID el state reciprocalId iid branchID
        ((targets.lookup branchID).getD "")
    return state

/-! ### Completed jobs -/

/-- `workfFlowStateFrom`. A history entry that lacks one of its ids makes it panic. -/
def workfFlowStateFrom (activityStart : ProcessHistoryEntry) : Act WorkflowState := do
  let workflowId ← Act.deref activityStart.workflowId
  let executionId ← Act.deref activityStart.executionId
  let elementId ← Act.deref activityStart.elementId
  let processInstanceId ← Act.deref activityStart.processInstanceId
  let state ← Act.deref activityStart.cancellationState
  return {
    id := activityStart.id
    workflowId := workflowId
    executionId := executionId
    elementId := elementId
    processInstanceId := processInstanceId
    state := state
    vars := activityStart.vars
    timer := activityStart.timer
    error := activityStart.error
    unixTimeNano := activityStart.unixTimeNano
    execute := activityStart.execute
    processId := activityStart.processId
    satisfiesGatewayExpectation := activityStart.satisfiesGatewayExpectation
    gatewayExpectations := activityStart.gatewayExpectations
    workflowName := activityStart.workflowName }

/-- The end of `completeJobProcessor`, once the state of the activity has been found. -/
def finishJob (job oldState : WorkflowState) (el : Option Element) : Act Unit := do
  let el ← Act.deref el
  let vars ← Act.wrap "complete job processor failed to transform variables"
    (Act.ofCall (lib.outputVars .listed job.vars oldState.vars el.outputTransform.field))
  let _ ← Act.wrap "complete job processor failed to complete activity"
    (completeActivity ns { oldState with
      vars := vars
      id := TrackingID.pop job.id
      state := job.state
      elementId := el.id
      elementType := el.type })
  Act.wrap "complete job processor failed to record history job complete"
    (recordHistoryJobComplete ns job)
  Act.wrap "complete job processor failed to delete job" (deleteJob ns (TrackingID.ID job.id))

/-- `completeJobProcessor`. -/
def completeJobProcessor (job : WorkflowState) : Act Unit := do
  let some _ ← Act.wrap "get old state for complete job processor"
    (Act.optional [.keyNotFound] (getProcessHistoryItem ns job.processInstanceId
      (TrackingID.parentID job.id) .activityExecute)) | return ()
  let some pi ← Act.wrap "get workflow instance for job"
    (Act.optional [.processInstanceNotFound] (getProcessInstance ns job.processInstanceId))
    | return ()
  let wf ← engineErr (getWorkflow ns pi.workflowId)
  let some activityStart ← Act.wrap "complete job processor failed to get old state"
    (Act.optional [.keyNotFound] (getProcessHistoryItem ns job.processInstanceId
      (TrackingID.ID (TrackingID.pop job.id)) .activityExecute)) | return ()
  let oldState ← workfFlowStateFrom activityStart
  finishJob lib ns job oldState ((elementTable wf).lookup job.elementId)

/-! ### Completed activities -/

/-- `destroyProcessInstance`. The execution goes with its last process instance. -/
def destroyProcessInstance (processInstanceId executionId : String) : Act Unit := do
  nsKVs ns
  let (updated, e) ← (updateObjMsg ⟨ns, .wfExecution, executionId⟩ ({} : Execution)
    fun (v : Execution) =>
      .ok { v with processInstanceId := v.processInstanceId.erase processInstanceId } :
    P (Except Err Unit × Execution))
  -- the message object is looked at before the error is
  Act.when (e.processInstanceId.length = 0)
    (Act.wrap "destroy process instance delete execution" (delete ⟨ns, .wfExecution, executionId⟩))
  Act.wrap "destroy process instance failed to update execution" (Act.ofExcept updated)
  Act.wrap "destroy process instance failed to delete process instance"
    (delete ⟨ns, .wfProcessInstance, processInstanceId⟩)
  let fn := "destroy process instance failed initiaite completing workflow instance"
  let state ← Act.wrap fn (publishWorkflowState ns .processTerminated state)
  Act.when (e.processInstanceId.length = 0) do
    let _ ← Act.wrap fn (publishWorkflowState ns .executionComplete state)

/-- The branches that leave an element. A link throw event leads to the first catch event of its
name, in the order in which the runtime ranges over the elements. -/
def outboundOf (els : GoMap Element) (el : Element) : Act (Option Targets) :=
  if el.type = .linkIntermediateThrowEvent then do
    let order ← mapOrder els.keys
    match (linkCatches els order el.execute).head? with
    | none => throw (.workflowFatal (.text "corresponding catch not found") none)
    | some target => return some { target := [{ target := target.id }] }
  else return el.outbound

/-- The job of the caller is published as complete, with the variables and the error of the called
process. It is returned as it is after the call. -/
def completeCaller (jobID : String) : Act (Option WorkflowState) := do
  match ← Act.wrap "activity complete processor failed to get job"
      (Act.optional [.jobNotFound] (getJob ns jobID)) with
  | none => return none
  | some j =>
    let j ← Act.wrap "activity complete processor failed to publish job launch complete"
      (publishWorkflowState ns .jobLaunchComplete
        { j with vars := state.vars, error := state.error })
    return some j

/-- The process instance of the state is destroyed if it is still there (`alive`). -/
def destroyAlive (alive : Option ProcessInstance) (execution : Option Execution) : Act Unit :=
  match alive with
  | none => return ()
  | some pi => do
    let execution ← Act.deref execution
    let _ ← Act.wrap "activity complete processor failed to destroy execution"
      (Act.optional [.keyNotFound]
        (destroyProcessInstance ns state pi.processInstanceId execution.executionId))

/-- The end of a called process: the job of the caller is completed and removed, and the process
instance is destroyed. -/
def leaveCalledProcess (jobID : String) (alive : Option ProcessInstance) : Act Unit := do
  let j ← completeCaller ns state jobID
  let _ ← Act.wrap ("activity complete processor failed to delete job " ++ jobID)
    (Act.optional [.keyNotFound] (deleteJob ns jobID))
  -- the error that is reported here is another, empty one
  let execution ← Act.mapError
    (fun _ => .text "activity complete processor failed to get execution: %!w(<nil>)")
    (Act.optional [.keyNotFound] (getExecution ns state.executionId))
  destroyAlive ns state alive execution
  let j ← Act.deref j
  let _ ← Act.wrap "activity complete processor failed to publish job launch complete"
    (publishWorkflowState ns .jobLaunchComplete j)

/-- The end of `activityCompleteProcessor`. -/
def leaveProcess (alive : Option ProcessInstance) : Act Unit :=
  if (state.elementType = .endEvent ∨ state.elementType = .compensateEndEvent) ∧
      state.id.length > 2 ∧ TrackingID.ancestor state.id 2 ≠ state.executionId then
    leaveCalledProcess ns state (TrackingID.ancestor state.id 2) alive
  else return ()

/-- The cancellation state that was recorded for an activity. Without a record nothing is wrong. -/
def recordedState (old : Option ProcessHistoryEntry) : Act CancellationState :=
  match old with
  | none => return .executing
  | some old => Act.deref old.cancellationState

/-- The token of a finished activity traverses. A fatal error is logged and ends the processing. -/
def traverseCompleted (outbound : Option Targets)
    (els : GoMap Element) (alive : Option ProcessInstance) : Act Unit := do
  match ← Act.attempt (traverse lib ns (TrackingID.pop state.id) outbound els state) with
  | .ok state => leaveProcess ns state alive
  | .error e =>
    if e.isWorkflowFatal then logError "workflow fatally terminated whilst traversing"
    else throw (.wrap "activity complete processor traversal attempt" e)

/-- `activityCompleteProcessor`. -/
def activityCompleteProcessor : Act Unit := do
  let old ← Act.wrap "activity complete processor failed to get old state"
    (Act.optional [.keyNotFound] (getProcessHistoryItem ns state.processInstanceId
      (TrackingID.ID state.id) .activityExecute))
  let oldState ← recordedState old
  if oldState = .obsolete ∧ state.state = .obsolete then
    return ()
  else
    let alive ← Act.wrap "activity complete processor failed to get process instance"
      (Act.optional [.processInstanceNotFound] (getProcessInstance ns state.processInstanceId))
    let wf ← Act.wrap "activity complete processor failed to get workflow"
      (getWorkflow ns state.workflowId)
    let els := elementTable wf
    let el ← Act.deref (els.lookup state.elementId)
    let outbound ← outboundOf els el
    match alive with
    | none => leaveProcess ns state alive
    | some _ => traverseCompleted lib ns state outbound els alive

/-- The handler of `processActivities`, for a completed activity. -/
def processActivities (activity : WorkflowState) : Handler Bool := do
  Act.acking false (activityCompleteProcessor lib ns activity)
  return true

end SharWorkflow
