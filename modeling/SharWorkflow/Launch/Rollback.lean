import SharWorkflow.Engine.Handlers
import SharWorkflow.Nats.Alone

/-!
# The rollback of a launch

A launch stores an execution first, and then a process instance for each process. When a later step
fails, the launch is rolled back by a message: the order to abort the execution. But the order names
no process instance, and its handler, `xDestroyProcessInstance`, gives up when it does not find the
process instance of the order. So **nothing that a launch has stored is ever removed** by the
handling of its messages, and a failed launch leaves nothing behind exactly if it failed before it
stored anything.

Most of the failures do not even send the order: the error of `createExecution` comes before the
rollback is set up, and those of `launchProcess` do not reach the variable that it looks at.

* `launchThreads`: a launch, and the handling of its messages, all side by side.
* `failed_launch_undone_iff`: the theorem, for every run.
* `launch_leaves_execution`: a launch without a variable that the process asks for.
-/

namespace SharWorkflow

open Concurrent Discipline Scope World

/-! ### A launch and its messages -/

/-- The result of a thread: that of the launch, or nothing for the handling of a message. -/
abbrev LaunchResult : Type := Option (Except Err (String × String))

/-- The state of a message, which is empty when the message carries none. -/
def Msg.state (m : Msg) : WorkflowState :=
  match m.payload with
  | .state state => state
  | _ => {}

/-- The handling of a message by a consumer. -/
def Consumer.handling (lib : Lib) (consumer : Consumer) (m : Msg) : P LaunchResult :=
  (serve m.ns (consumer.handler lib m.ns m.subject m.state)).bind fun _ => .ret none

/-- The call of `Launch`. -/
def launching (lib : Lib) (ns processId : String) (vars headers : Bytes) : P LaunchResult :=
  (launch lib ns processId vars headers).run.bind fun r => .ret (some r)

variable {κ : Type}

/-- A launch (`none`), and the handling of messages next to it. -/
def launchThreads (lib : Lib) (ns processId : String) (vars headers : Bytes)
    (handled : κ → Consumer × Msg) : Option κ → P LaunchResult
  | none => launching lib ns processId vars headers
  | some j => (handled j).1.handling lib (handled j).2

/-- The call of `Launch` has stored an object at the location. -/
def StoredByLaunch (t : List (WEvent (Option κ))) (l : Loc) : Prop :=
  ∃ e ∈ t, e.thread = none ∧ isStoreAt l e.op e.answer = true

/-- The message was published by the call of `Launch`. -/
def PublishedByLaunch (t : List (WEvent (Option κ))) (m : Msg) : Prop :=
  ∃ e ∈ t, e.thread = none ∧ e.op = .publish m

/-- Nothing that the call of `Launch` has created is left: no execution, no process instance, and no
job for one of the executions. -/
structure LaunchUndone (ns : String) (t : List (WEvent (Option κ))) (w : World) : Prop where
  execution : ∀ id, StoredByLaunch t ⟨ns, .wfExecution, id⟩ → w.value ⟨ns, .wfExecution, id⟩ = none
  processInstance : ∀ id, StoredByLaunch t ⟨ns, .wfProcessInstance, id⟩ →
    w.value ⟨ns, .wfProcessInstance, id⟩ = none
  job : ∀ id, StoredByLaunch t ⟨ns, .wfExecution, id⟩ → ∀ (key : String) (job : WorkflowState),
    w.value ⟨ns, .job, key⟩ = some job → job.executionId ≠ id

/-! ### The scope of the launch -/

/-- The location at which no process instance can be: the one of the empty id. -/
def noInstanceLoc (ns : String) : Loc := ⟨ns, .wfProcessInstance, ""⟩

/-- What a launch and the handling of its messages may do. Nothing is deleted, and no execution is
reported as complete. -/
def launchScope (ns : String) (vacant : Loc → Prop) : Scope :=
  ⟨ns, fun l => l ≠ noInstanceLoc ns, fun _ => False, (· ≠ .executionComplete), vacant⟩

theorem within_launching (lib : Lib) (ns processId : String) (vars headers : Bytes)
    (vacant : Loc → Prop) :
    (launchScope ns vacant).Within (fun _ => True) (launching lib ns processId vars headers) := by
  have hwrites : LaunchWrites ns fun l => l ≠ noInstanceLoc ns :=
    ⟨fun id => by simp [noInstanceLoc], fun id hid => by simp [noInstanceLoc, hid]⟩
  exact Ensures.bind (local_launchWithParent (lib.tame_of_fatal (by rintro ⟨⟩)) hwrites) fun _ _ =>
    ensures_ret trivial

theorem within_handling (lib : Lib) (ns : String) (consumer : Consumer) {m : Msg}
    (hm : (launchScope ns fun _ => False).MayPublish m) :
    (launchScope ns (· = noInstanceLoc ns)).Within (fun _ => True) (consumer.handling lib m) := by
  obtain rfl : m.ns = ns := hm.ns
  refine Ensures.bind (within_serve ?_) fun _ _ => ensures_ret trivial
  cases consumer with
  | traversal => exact local_processTraversals (lib.tame_of_fatal (by rintro ⟨⟩))
  | tracking => exact local_track
  | workflowEvents =>
    refine local_processWorkflowEvents fun hsubject => ?_
    have hspecial := hm.special
    rw [hsubject] at hspecial
    exact hspecial rfl rfl
  | generalAbort =>
    refine local_processGeneralAbort fun hsubject => ?_
    have hempty : m.state.processInstanceId = "" := by
      unfold Msg.state
      split
      · exact hm.abort hsubject _ ‹_›
      · rfl
    rw [hempty]
    rfl

theorem keepsVacant_launchScope (ns : String) :
    (launchScope ns (· = noInstanceLoc ns)).KeepsVacant := by
  rintro l rfl
  exact ⟨trivial, fun h => h rfl⟩

/-! ### The theorem -/

variable [DecidableEq κ] {F : Op → Prop} {lib : Lib} {ns processId : String} {vars headers : Bytes}
  {handled : κ → Consumer × Msg} {w : World} {c : Config (Option κ) Op Ans World LaunchResult}

variable {l : Loc}

/-- What the launch has stored stays. -/
theorem value_ne_none_of_storedByLaunch (hempty : w.value (noInstanceLoc ns) = none)
    (hrun : Run (env F) (.start w (launchThreads lib ns processId vars headers handled)) c)
    (hpublished : ∀ j, PublishedByLaunch c.trace (handled j).2)
    (hl : l.bucket.HoldsInstances) (hstored : StoredByLaunch c.trace l) :
    c.state.value l ≠ none := by
  have hlaunch : (launchScope ns fun _ => False).Within (fun _ => True)
      (launchThreads lib ns processId vars headers handled none) :=
    within_launching lib ns processId vars headers _
  have hmessages : ∀ j, (launchScope ns fun _ => False).MayPublish (handled j).2 := by
    intro j
    obtain ⟨e, he, hthread, hop⟩ := hpublished j
    have hcovers := run_covered (fun _ => id) hlaunch hrun e he hthread
    rw [hop] at hcovers
    exact hcovers
  have hwithin : ∀ i, (launchScope ns (· = noInstanceLoc ns)).Within (fun _ => True)
      (launchThreads lib ns processId vars headers handled i) := by
    intro i
    cases i with
    | none => exact within_launching lib ns processId vars headers _
    | some j => exact within_handling lib ns _ (hmessages j)
  have hkept := run_kept (keepsVacant_launchScope ns) (fun l hl => hl ▸ hempty) hwithin hrun
  obtain ⟨e, he, -, hstore⟩ := hstored
  exact hkept.stored l hl id ⟨e, he, hstore⟩

/-- **A launch is undone exactly if it has stored nothing**: in every run of a launch and of the
handling of its messages, at any moment, and whichever calls fail. -/
theorem failed_launch_undone_iff (hempty : w.value (noInstanceLoc ns) = none)
    (hrun : Run (env F) (.start w (launchThreads lib ns processId vars headers handled)) c)
    (hpublished : ∀ j, PublishedByLaunch c.trace (handled j).2) : LaunchUndone ns c.trace c.state ↔
      ∀ id, ¬ StoredByLaunch c.trace ⟨ns, .wfExecution, id⟩ ∧
        ¬ StoredByLaunch c.trace ⟨ns, .wfProcessInstance, id⟩ := by
  constructor
  · refine fun h id => ⟨fun hstored => ?_, fun hstored => ?_⟩
    · exact value_ne_none_of_storedByLaunch (l := ⟨ns, .wfExecution, id⟩) hempty hrun hpublished
        trivial hstored (h.execution id hstored)
    · exact value_ne_none_of_storedByLaunch (l := ⟨ns, .wfProcessInstance, id⟩) hempty hrun
        hpublished trivial hstored (h.processInstance id hstored)
  · intro h
    exact ⟨fun id hstored => absurd hstored (h id).1, fun id hstored => absurd hstored (h id).2,
      fun id hstored => absurd hstored (h id).1⟩

/-! ### A launch without a variable -/

/-- A start event that asks for the variable `orderId`. -/
def orderStart : Element where
  id := "start"
  type := .startEvent
  outputTransform := AList.singleton "order" "= orderId"

/-- A workflow whose process begins with the event. -/
def orderWorkflow : Workflow where
  name := "Orders"
  process := AList.singleton "order" { id := "order", elements := [orderStart] }
  collaboration := some []

/-- The libraries, where every expression asks for the variable `orderId`. -/
def orderLib : Lib := { constLib ∅ with getVariables := fun _ => .ok ["orderId"] }

/-- The world with the workflow. -/
def orderWorld : World :=
  ((({} : World).put ⟨"default", .wfProcess, "order"⟩ "Orders").put
    ⟨"default", .wfVersion, "Orders"⟩ { version := [{ id := "version" }] }).put
    ⟨"default", .wf, "version"⟩ orderWorkflow

/-- The message by which the execution is announced. -/
def orderMessage : Msg where
  ns := "default"
  subject := .executionExecute
  payload := .state
    { executionId := "id0", workflowId := "version", workflowName := "Orders", id := ["id0"] }

/-- The handling of the message. -/
def orderHandled : Bool → Consumer × Msg
  | false => (.tracking, orderMessage)
  | true => (.workflowEvents, orderMessage)

/-- The call is a write. -/
def Op.isWrite : Op → Bool
  | .put _ _ | .create _ _ | .update _ _ _ => true
  | _ => false

theorem Op.isWrite_of_isStoreAt {o : Op} {r : Ans o} (h : isStoreAt l o r = true) :
    o.isWrite = true := by
  cases o with
  | put _ _ | create _ _ | update _ _ _ => rfl
  | _ => cases h

/-- A launch of a process that is not known fails before it stores anything. -/
theorem failed_launch_undone_unknown : ∃ c, Run (env noFault) (.start orderWorld
        (launchThreads orderLib "default" "invoice" [] [] (κ := Empty) Empty.elim)) c ∧
      (∃ e, c.threads none = .ret (some (.error e))) ∧
      LaunchUndone "default" c.trace c.state := by
  obtain ⟨c, hrun, hfailed, hreads⟩ := exists_run_of_reaches noFault
    (.start orderWorld (launchThreads orderLib "default" "invoice" [] [] (κ := Empty) Empty.elim))
    (List.replicate 2 (none, .ok))
    (fun c => (∃ e, c.threads none = .ret (some (.error e))) ∧ ∀ e ∈ c.trace, e.op.isWrite = false)
    (by decide +kernel)
  have hnone : ∀ l, ¬ StoredByLaunch c.trace l := by
    rintro l ⟨e, he, -, hstore⟩
    have hwrite := Op.isWrite_of_isStoreAt hstore
    rw [hreads e he] at hwrite
    cases hwrite
  refine ⟨c, hrun, hfailed, ?_⟩
  exact (failed_launch_undone_iff (by simp [orderWorld, noInstanceLoc]) hrun (fun j => j.elim)).2
    fun id => ⟨hnone _, hnone _⟩

/-- **A launch that leaves its execution behind.** The variable is missing, which is found out when
the execution has been stored. The only message is handled, no call fails, and the execution
stays. -/
theorem launch_leaves_execution : orderWorld.value ⟨"default", .wfExecution, "id0"⟩ = none ∧
    (∀ consumer : Consumer, consumer.takes orderMessage.subject = true →
      ∃ j, orderHandled j = (consumer, orderMessage)) ∧
    ∃ c, Run (env noFault) (.start orderWorld
        (launchThreads orderLib "default" "order" [] [] orderHandled)) c ∧
      (∃ e, c.threads none = .ret (some (.error e))) ∧ (∀ j, c.threads (some j) = .ret none) ∧
      c.state.log = [orderMessage] ∧ c.state.value ⟨"default", .wfExecution, "id0"⟩ ≠ none := by
  refine ⟨by simp [orderWorld], fun consumer h => ?_, ?_⟩
  · cases consumer with
    | tracking => exact ⟨false, rfl⟩
    | workflowEvents => exact ⟨true, rfl⟩
    | _ => exact absurd h (by decide)
  exact exists_run_of_reaches noFault _
    (List.replicate 17 (none, .ok) ++ List.replicate 2 (some false, .ok)) _ (by decide +kernel)

end SharWorkflow
