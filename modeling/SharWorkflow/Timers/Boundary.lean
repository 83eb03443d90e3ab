import SharWorkflow.Engine.Alone
import SharWorkflow.Engine.Boundary

/-!
# Boundary timers

What becomes of the message by which a boundary timer fires.

The activity of the timer is still running, and the message is due (`PendingTimer`). Then the
handler should send one token to the target of the timer, and acknowledge the message. It does so
exactly when the namespace in which the *listener* was started stores an execution under the id of
the timer's execution (`boundary_timer_fires_iff`): the first lookup of the handler is made with the
context of the listener, every other one with the context of the message. The listener has no
namespace of its own, so outside the default namespace no boundary timer ever fires, and its message
is delivered again and again.
-/

namespace SharWorkflow

open Concurrent World

-- sequences are split by `ends_seq`
attribute [-simp] ExceptT.run_bind

/-! ### The branch of a timer -/

theorem chosenTargets_timerTargets (lib : Lib) (vars : Bytes) (target : String) :
    chosenTargets lib vars (timerTargets target) =
      some (.ok (AList.insert "timer-target" target ∅)) := by
  simp [chosenTargets, takenTargets, timerTargets, Targets.default?]

variable {X : Prop} {w : World} {ns : String}

/-- One branch sends one token. -/
theorem ends_sendBranch {trackingID : TrackingID} {els : GoMap Element} {state : WorkflowState}
    {reciprocalId iid branchID elID : String} {wf : Workflow} {pr : Process}
    {target named : Element} {solitary : Bool} {Q : World → Except Err Unit → Prop}
    (hwf : w.Defines ns state.workflowId wf) (hpr : wf.process.lookup state.processId = some pr)
    (htarget : els.lookup elID = some target)
    (hnamed : (processTable pr).lookup target.id = some named)
    (hsolitary : isSolitaryJoin target = some solitary)
    (hQ : ∀ id c t, Q (((w.issue id).withCache c).publish ⟨ns, .traversalExecute,
      .state ((branchState state (trackingID.push id) target named.name solitary reciprocalId iid
        branchID).stamped t), 0⟩) (.ok ())) : Ends (env noFault) X Q w
      (sendBranch ns trackingID els state reciprocalId iid branchID elID).run := by
  rw [sendBranch, ends_seq, ends_newId]
  intro id _
  simp only [ends_seq, ends_deref, htarget, ends_mapError]
  refine ⟨by rintro ⟨⟩, fun _ h => ?_⟩
  cases h
  have hissued : (w.issue id).Defines ns state.workflowId wf := ⟨hwf.stored, hwf.cached⟩
  refine Ends.getWorkflow hissued fun c _ => ?_
  simpa [hpr, hnamed, hsolitary, ends_publishWorkflowState] using hQ id c

/-- A running activity with a boundary timer, whose message is `state`. -/
structure PendingTimer (w : World) (ns : String) (state : WorkflowState) where
  pi : ProcessInstance
  wf : Workflow
  pr : Process
  el : Element
  timer : Timer
  target : Element
  named : Element
  execution : w.value ⟨ns, .wfExecution, state.executionId⟩ ≠ none
  processInstance : w.value ⟨ns, .wfProcessInstance, state.processInstanceId⟩ = some pi
  started : w.value (historyLoc ns state.processInstanceId (TrackingID.ID state.id)
    .activityExecute) ≠ none
  /-- the activity is not complete -/
  running : w.value (historyLoc ns state.processInstanceId (TrackingID.ID state.id)
    .activityComplete) = none
  workflowId : state.workflowId = pi.workflowId
  defined : w.Defines ns pi.workflowId wf
  process : wf.process.lookup state.processId = some pr
  element : (elementTable wf).lookup state.elementId = some el
  /-- boundary events are attached to activities -/
  activity : el.type ≠ .gateway
  attached : timer ∈ el.boundaryTimer
  execute : state.execute = some timer.target
  /-- the timer leads to an element of its process, and a gateway has a specification -/
  leads : (elementTable wf).lookup timer.target = some target
  sameProcess : (processTable pr).lookup timer.target = some named
  gateway : target.type = .gateway → target.gateway ≠ none

/-- The messages that were published from `w` to `w'` hold one token for the target, and no other
token. -/
def SendsOneToken (w w' : World) (ns target : String) : Prop :=
  ∃ new, w'.log = new ++ w.log ∧ ∃ token : WorkflowState, token.elementId = target ∧
    new.filter (fun m => m.subject = .traversalExecute) =
      [⟨ns, .traversalExecute, .state token, 0⟩]

theorem isSolitaryJoin_ne_none {target : Element}
    (h : target.type = .gateway → target.gateway ≠ none) : isSolitaryJoin target ≠ none := by
  rw [isSolitaryJoin]
  split
  · rename_i htype
    simpa using h htype
  · exact Option.some_ne_none _

/-- The traversal by which a timer fires sends one token, to the target of the timer. -/
theorem ends_timerTraversal {lib : Lib} {w₀ : World} {state : WorkflowState}
    (h : PendingTimer w₀ ns state) {Q : World → Except Err WorkflowState → Prop}
    (hdefined : w.Defines ns h.pi.workflowId h.wf)
    (hQ : ∀ (w' : World) (token state' : WorkflowState), token.elementId = h.timer.target →
      w'.log = ⟨ns, .traversalExecute, .state token, 0⟩ :: w.log → Q w' (.ok state')) :
    Ends (env noFault) X Q w (traverse lib ns (TrackingID.pop state.id)
      (some (timerTargets h.timer.target)) (elementTable h.wf) state).run := by
  have htargetId : h.target.id = h.timer.target := indexed_elementTable h.wf _ _ h.leads
  have hsplit : splitReciprocal h.el = some "" := by simp [splitReciprocal, h.activity]
  obtain ⟨solitary, hsolitary⟩ :=
    Option.ne_none_iff_exists'.1 (isSolitaryJoin_ne_none h.gateway)
  have hwf : w.Defines ns state.leaving.workflowId h.wf := h.workflowId ▸ hdefined
  -- the branches are the one of the timer alone, in whatever order they are taken
  have horder : ∀ order : List String,
      order.Perm (AList.insert "timer-target" h.timer.target (∅ : GoMap String)).keys →
      order = ["timer-target"] := fun order hperm => by
    simpa [AList.keys_insert] using hperm
  simp only [traverse, chosenTargets_timerTargets, Act.deref_some, ends_seq, ends_pure,
    ends_ofExcept, h.element, hsplit, ends_newId, openGateway, if_true, ends_mapOrder]
  intro iid _ order hperm
  obtain rfl := horder order hperm
  simp only [List.forM_eq_forM, List.forM_cons, List.forM_nil, ends_seq]
  rw [AList.lookup_insert, Option.getD_some]
  have hissued : (w.issue iid).Defines ns state.leaving.workflowId h.wf := ⟨hwf.stored, hwf.cached⟩
  refine ends_sendBranch hissued h.process h.leads
    (htargetId ▸ h.sameProcess) hsolitary fun id c t => ?_
  simp only [ends_pure]
  refine hQ _ _ _ ?_ rfl
  rw [WorkflowState.stamped_elementId, branchState_elementId, htargetId]

variable {lib : Lib} {listenerNs : String} {state : WorkflowState}

/-- The timer fires when the listener finds an execution. -/
theorem ends_boundaryTimerFired (h : PendingTimer w ns state)
    (hfound : w.value ⟨listenerNs, .wfExecution, state.executionId⟩ ≠ none) :
    Ends (env noFault) X
      (fun w' r => r = .ok () ∧ SendsOneToken w w' ns h.timer.target) w
      (boundaryTimerFired lib listenerNs ns state).run := by
  obtain ⟨execution, hfound⟩ := Option.ne_none_iff_exists'.1 hfound
  obtain ⟨entry, hentry⟩ := Option.ne_none_iff_exists'.1 h.started
  simp only [boundaryTimerFired, timerInstance, ends_seq, ends_ending, ends_attempt,
    ends_hasValidExecution, getProcessInstance,
    ends_loadFor ⟨_, .wfProcessInstance, _⟩, hfound, h.processInstance, ends_pure,
    reduceCtorEq, false_imp_iff, true_and, Option.some.injEq, forall_eq', mapError_ok,
    noFault_iff, and_true]
  refine Ends.getWorkflow h.defined fun c hdefined => ?_
  simp only [mapError_ok, ends_getProcessHistoryItem, World.withCache_value, hentry, h.execute,
    Act.deref_some, ends_pure, reduceCtorEq, false_imp_iff, true_and, Option.some.injEq, forall_eq',
    noFault_iff, and_true]
  refine ends_timerTraversal h hdefined fun w' token state' htoken hlog => ?_
  simp only [mapError_ok, @ends_publishWorkflowState _ _ _ _ .activityAbort _ _ _ (by decide),
    noFault_iff, false_imp_iff, and_true]
  -- the abort of the activity follows the token
  intro t
  refine ⟨[⟨ns, .activityAbort, .state (state'.stamped t), 0⟩,
    ⟨ns, .traversalExecute, .state token, 0⟩], ?_, token, htoken, by simp⟩
  rw [World.publish_log, hlog]
  rfl

/-- Without an execution in the namespace of the listener the message is kept, and nothing
happens. -/
theorem ends_boundaryTimerFired_of_missing
    (hmissing : w.value ⟨listenerNs, .wfExecution, state.executionId⟩ = none) :
    Ends (env noFault) X (fun w' r => r = .error .kept ∧ w' = w) w
      (boundaryTimerFired lib listenerNs ns state).run := by
  simp [boundaryTimerFired, hmissing]

/-- **A boundary timer fires** exactly when the namespace of the listener stores an execution of the
same id: however the calls are answered, one token is sent to the target of the timer in the
namespace of the message, and the message is acknowledged. -/
theorem boundary_timer_fires_iff (lib : Lib) (listenerNs ns : String) (w : World)
    (state : WorkflowState) (h : PendingTimer w ns state) (time embargo : Int64)
    (hdue : embargo - time ≤ 0) : Ends (env noFault) False
        (fun w' r => r = .acked ∧ SendsOneToken w w' ns h.timer.target) w
        (listenForElementTimer lib listenerNs time ns embargo state) ↔
      w.value ⟨listenerNs, .wfExecution, state.executionId⟩ ≠ none := by
  have hnow : ¬ (embargo ≠ 0 ∧ embargo - time > 0) := fun h => Int64.not_lt.2 hdue h.2
  rw [listenForElementTimer, if_neg hnow, ends_bind]
  constructor
  · intro hends hmissing
    -- the only execution keeps the message
    obtain ⟨w', r, hexec, hr, -⟩ := (@ends_boundaryTimerFired_of_missing False w ns lib
      listenerNs state hmissing).can
    subst hr
    have hkept := ends_ret.1 (hends.exec hexec)
    cases hkept.1
  · intro hfound
    refine (ends_boundaryTimerFired h hfound).mono ?_
    rintro w' r ⟨rfl, hsends⟩
    exact ends_ret.2 ⟨rfl, hsends⟩

/-! ### A task with a deadline -/

/-- A user task that is left for a reminder when it takes too long. -/
def reviewTask : Element where
  id := "review"
  type := .userTask
  outbound := some { target := [{ id := "f1", target := "done" }] }
  boundaryTimer := [{ id := "deadline", duration := "PT1H", target := "remind" }]

/-- The end event that the timer leads to. -/
def remindEvent : Element := { id := "remind", type := .endEvent }

/-- A process with the task. -/
def reviewProcess : Process where
  id := "process"
  elements := [reviewTask, { id := "done", type := .endEvent }, remindEvent]

/-- A workflow with the process. -/
def reviewWorkflow : Workflow := { process := AList.singleton "process" reviewProcess }

/-- The message by which the timer fires. -/
def reviewTimer : WorkflowState where
  workflowId := "workflow"
  executionId := "execution"
  processId := "process"
  processInstanceId := "instance"
  elementId := "review"
  elementType := .userTask
  id := ["instance", "activity"]
  execute := some "remind"

/-- The process instance of the task. -/
def reviewInstance : ProcessInstance where
  processInstanceId := "instance"
  executionId := "execution"
  workflowId := "workflow"

/-- The world while the task is open, in the namespace `ns`. -/
def reviewWorld (ns : String) : World :=
  (((({} : World).put ⟨ns, .wfExecution, "execution"⟩
    { executionId := "execution", workflowId := "workflow", processInstanceId := ["instance"] }).put
    ⟨ns, .wfProcessInstance, "instance"⟩ reviewInstance).put
    ⟨ns, .wf, "workflow"⟩ reviewWorkflow).put
    (historyLoc ns "instance" "activity" .activityExecute)
    (historyEntry reviewTimer .activityExecute)

/-- The timer of the task is pending, whatever the namespace. -/
def reviewPending (ns : String) : PendingTimer (reviewWorld ns) ns reviewTimer where
  pi := reviewInstance
  wf := reviewWorkflow
  pr := reviewProcess
  el := reviewTask
  timer := { id := "deadline", duration := "PT1H", target := "remind" }
  target := remindEvent
  named := remindEvent
  execution := by simp [reviewWorld, reviewTimer]
  processInstance := by simp [reviewWorld, reviewTimer]
  started := by
    change (reviewWorld ns).value (historyLoc ns "instance" "activity" .activityExecute) ≠ none
    simp [reviewWorld]
  running := by
    have hkey : historyKey "instance" "activity" .activityComplete ≠
      historyKey "instance" "activity" .activityExecute := by decide
    change (reviewWorld ns).value (historyLoc ns "instance" "activity" .activityComplete) = none
    simp [reviewWorld, hkey]
  workflowId := rfl
  defined := ⟨by simp [reviewWorld, reviewInstance], .inl rfl⟩
  process := rfl
  element := rfl
  activity := by decide
  attached := by simp [reviewTask]
  execute := rfl
  leads := rfl
  sameProcess := rfl
  gateway := nofun

/-- In the namespace of the listener the timer fires. -/
theorem boundary_timer_fires_default : Ends (env noFault) False
      (fun w' r => r = .acked ∧ SendsOneToken (reviewWorld "default") w' "default" "remind")
      (reviewWorld "default")
      (listenForElementTimer (constLib ∅) "default" 7200 "default" 3600 reviewTimer) :=
  (boundary_timer_fires_iff _ "default" "default" _ reviewTimer (reviewPending "default") 7200 3600
    (by decide)).2 (reviewPending "default").execution

/-- **A boundary timer that never fires.** The listener runs in the default namespace, and the task
is open in another one: the message is kept, however often it is delivered. -/
theorem boundary_timer_kept : Nonempty (PendingTimer (reviewWorld "tenant") "tenant" reviewTimer) ∧
      Ends (env noFault) False
        (fun w' r => r = .kept ∧ w' = reviewWorld "tenant") (reviewWorld "tenant")
        (listenForElementTimer (constLib ∅) "default" 7200 "tenant" 3600 reviewTimer) := by
  refine ⟨⟨reviewPending "tenant"⟩, ?_⟩
  have hmissing : (reviewWorld "tenant").value ⟨"default", .wfExecution, "execution"⟩ = none := by
    simp [reviewWorld]
  rw [listenForElementTimer, if_neg (by decide), ends_bind]
  refine (@ends_boundaryTimerFired_of_missing False _ "tenant" (constLib ∅) "default"
    reviewTimer hmissing).mono ?_
  rintro w' r ⟨rfl, rfl⟩
  exact ends_ret.2 ⟨rfl, rfl⟩

end SharWorkflow
