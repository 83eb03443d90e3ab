import SharWorkflow.Engine.Activity

/-!
# Gateways

The functions of `gateway.go`. A split that is paired with a join opens a gateway instance: an
entry of the gateway bucket, with the variables of the split. Each branch that arrives at the join
adds its route and its variables to the entry, and the branch that finds all expected routes there
completes the gateway.

* `getGatewayInstanceID`: the gateway instance and the route that a token carries for its element.
* `gatewayExecProcessor`, `completeGateway`: the arrival of a branch.
* `processGatewayActivation`: the activation of a join by a token.
-/

namespace SharWorkflow

open Concurrent

/-- The first two parts of a text separated by commas. The second one is missing when there is no
comma. -/
def splitComma (r : String) : String × Option String :=
  let cs := r.toList
  let first := cs.takeWhile (· ≠ ',')
  match cs.dropWhile (· ≠ ',') with
  | [] => (String.ofList first, none)
  | _ :: rest => (String.ofList first, some (String.ofList (rest.takeWhile (· ≠ ','))))

theorem splitComma_append {iid : String} (route : String) (h : ',' ∉ iid.toList) :
    splitComma (iid ++ "," ++ route) =
      (iid, some (String.ofList (route.toList.takeWhile (· ≠ ',')))) := by
  have hiid : ∀ c ∈ iid.toList, decide (c ≠ ',') = true := by
    intro c hc
    exact decide_eq_true fun h' => h (h' ▸ hc)
  have htext : (iid ++ "," ++ route).toList = iid.toList ++ ',' :: route.toList := by simp
  simp only [splitComma, htext, List.takeWhile_append_of_pos hiid,
    List.dropWhile_append_of_pos hiid]
  simp

/-- `GetGatewayInstanceID`: the gateway instance id and the route of the state. Without any tracking
entry for the element it fails; with an entry that lists no branch, or one that has no route, it
panics (`none`). -/
def getGatewayInstanceID (state : WorkflowState) : Option (Except Err (String × String)) :=
  match state.satisfiesGatewayExpectation.lookup state.elementId with
  | none => some (.error (.wrap "discover gateway instance ID"
      (.sentinel .gatewayInstanceNotFound)))
  | some satisfies =>
    match satisfies.instanceTracking.getLast? with
    | none => none
    | some r =>
      match splitComma r with
      | (iid, some route) => some (.ok (iid, route))
      | (_, none) => none

/-- A branch has arrived by `route` with the variables `vars`. -/
def Gateway.arrive (g : Gateway) (route : String) (vars : Bytes) : Gateway where
  metExpectations := g.metExpectations.insert route ""
  vars := g.vars ++ [vars]
  visits := g.visits + 1

/-- The process instance records that the gateway is closed. -/
def ProcessInstance.closeGateway (pi : ProcessInstance) (gatewayIID : String) : ProcessInstance :=
  { pi with gatewayComplete := pi.gatewayComplete.insert gatewayIID true }

/-- `completeGateway`. -/
def completeGateway (ns : String) (job : WorkflowState) : Act Unit := do
  mark "completeGateway"
  let gwIID ← Act.deref job.execute
  nsKVs ns
  -- record that we have closed this gateway
  let _ ← Act.wrap (fnName "completeGateway" ++ " failed to update gateway")
    (updateObj ⟨ns, .wfProcessInstance, job.processInstanceId⟩ ({} : ProcessInstance)
      fun (pi : ProcessInstance) => .ok (pi.closeGateway gwIID))
  let _ ← Act.wrap "complete gateway processor failed to complete activity"
    (completeActivity ns job)
  Act.wrap "complete gateway failed with" (delete ⟨ns, .wfGateway, gwIID⟩)

/-- The merged variables of a gateway. -/
def mergedVars (lib : Lib) (gw : Gateway) : Act Bytes := do
  let merged ← Act.deref (lib.mergeGatewayVars gw)
  Act.mapError (fun e => .wrap "merge gateway variables" (.workflowFatal e none))
    (Act.ofExcept merged)

/-- The gateway is completed with the merged variables. -/
def closeGateway (lib : Lib) (ns : String) (job : WorkflowState) (gw : Gateway) : Act Unit := do
  let nv ← mergedVars lib gw
  completeGateway ns { job with vars := nv }

/-- The end of `gatewayExecProcessor`: the arrival at the element `el` is recorded in `gw`. The
arrival at an exclusive join completes it; an inclusive or parallel one waits for all expected
branches. -/
def settleArrival (lib : Lib) (ns : String) (job : WorkflowState) (gatewayIID : String)
    (el : Option Element) (gw : Gateway) : Act Unit := do
  let el ← Act.deref el
  let spec ← Act.deref el.gateway
  match spec.type with
  | .exclusive => closeGateway lib ns job gw
  | _ =>
    let expectations ← Act.deref (job.gatewayExpectations.lookup gatewayIID)
    if expectations.expectedPaths.length ≤ gw.metExpectations.keys.length then
      closeGateway lib ns job gw
    else
      let _ ← publishWorkflowState ns .jobGatewayTaskAwait job

/-- `gatewayExecProcessor`. -/
def gatewayExecProcessor (lib : Lib) (ns : String) (job : WorkflowState) : Handler Bool := do
  match ← Act.acking false (Act.attempt (hasValidProcess ns job.processInstanceId job.executionId))
  with
  | .error e => throw (e.is .executionNotFound || e.is .processInstanceNotFound, e)
  | .ok _ =>
    let wf ← Act.acking true (Act.mapError
      (fun e => .workflowFatal (.wrap "process gateway execute failed" e) none)
      (getWorkflow ns job.workflowId))
    let pr ← Act.acking false (Act.deref (wf.process.lookup job.processId))
    let found ← Act.acking false (Act.deref (getGatewayInstanceID job))
    let (gatewayIID, route) ← Act.acking false
      (Act.wrap (fnName "gatewayExecProcessor" ++ " failed to find gateway instance ID")
        (Act.ofExcept found))
    let job := { job with execute := some gatewayIID }
    Act.acking false (nsKVs ns)
    let gw ← Act.acking false (Act.wrap "save gateway instance metadata"
      (updateObj ⟨ns, .wfGateway, gatewayIID⟩ ({} : Gateway)
        fun (g : Gateway) => .ok (g.arrive route job.vars)))
    Act.acking false
      (settleArrival lib ns job gatewayIID ((processTable pr).lookup job.elementId) gw)
    return true

/-- The handler of `processGatewayActivation`. The first branch that arrives executes the join, any
later one re-enters it. -/
def processGatewayActivation (ns : String) (job : WorkflowState) : Handler Bool := do
  Act.acking false (nsKVs ns)
  let some _ ← Act.acking false (Act.optional [.executionNotFound, .processInstanceNotFound]
    (hasValidProcess ns job.processInstanceId job.executionId)) | return true
  let found ← Act.acking false (Act.deref (getGatewayInstanceID job))
  let gwIID := (found.toOption.map Prod.fst).getD ""
  let fn := fnName "processGatewayActivation.func1"
  let gw ← match ← Act.acking false (Act.attempt (loadObj ⟨ns, .wfGateway, gwIID⟩)) with
    | .error e =>
      if e.is .keyNotFound then throw (false, .wrap (fn ++ " could not load gateway information") e)
      else pure ({} : Gateway)
    | .ok gw => pure (gw : Gateway)
  let subject := if gw.vars.length = 1 then .jobGatewayTaskExecute else .jobGatewayTaskReEnter
  let _ ← Act.acking false (Act.wrap (fn ++ " failed to execute gateway to KV")
    (publishWorkflowState ns subject job))
  return true

end SharWorkflow
