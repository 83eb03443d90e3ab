import SharWorkflow.Engine.Handlers

/-!
# Fatal errors of a process instance

A fatal error ends the work on a message. `Process` signals it, so that the workflow can be torn
down, but only if the error carries the state of the workflow. No error that the handlers of a
process instance return does: `ErrWorkflowFatal` is built without a state throughout, and two of the
handlers log a fatal error and return none. So **no fatal error is ever signalled** for a traversal,
a completed activity, a completed job, a gateway or a launch, and the message is acknowledged.

* `fatal_error_not_signalled`: the theorem, for every run.
* `link_token_dropped`: a token that is lost at a link event.
-/

namespace SharWorkflow

open Concurrent Discipline Scope World

variable {ns : String} {lib : Lib}

/-- A fatal error is signalled by this call. -/
def Op.signalsFatal : Op → Bool
  | .publish m => m.subject = .systemProcessFatalError
  | _ => false

theorem Scope.covers.not_signalsFatal {S : Scope} (hS : ¬ S.publishes .systemProcessFatalError)
    {o : Op} (h : S.covers o) : o.signalsFatal = false := by
  cases o with
  | publish m =>
    refine decide_eq_false fun hsubject => hS ?_
    have hspecial := h.special
    rw [hsubject] at hspecial
    exact hspecial rfl
  | _ => rfl

/-- The scope of a handler that may write and delete anything in its namespace, but signals no fatal
error. -/
def quietScope (ns : String) : Scope :=
  ⟨ns, fun _ => True, fun _ => True, (· ≠ .systemProcessFatalError), fun _ => False⟩

/-- The handlers of messages stay in that scope. -/
theorem local_quietScope (hlib : lib.Raises Err.Stateless) (work : Work) (state : WorkflowState) :
    Local (quietScope ns) (work.handler lib ns state) :=
  local_work (S := quietScope ns) (hlib.tame _) (fun _ => trivial) fun _ =>
    ⟨⟨fun _ _ => trivial, fun _ => trivial, nofun⟩, nofun⟩

/-- **No fatal error is signalled.** Whatever a message of a process instance is about, whichever
calls fail, and whatever runs next to its handling: the handling publishes no `FatalError`. -/
theorem fatal_error_not_signalled (lib : Lib) (hlib : lib.Raises Err.Stateless) (F : Op → Prop)
    {ι : Type} [DecidableEq ι] (w : World) (threads : ι → P Settlement) (i : ι) (ns : String)
    (work : Work) (state : WorkflowState) (hi : threads i = serve ns (work.handler lib ns state))
    (c : Config ι Op Ans World Settlement) (hrun : Run (env F) (Config.start w threads) c) :
    ∀ e ∈ c.trace, e.thread = i → e.op.signalsFatal = false := by
  intro e he hthread
  have hwithin : (quietScope ns).Within (fun _ => True) (threads i) := by
    rw [hi]
    exact within_serve (local_quietScope hlib work state)
  exact Scope.covers.not_signalsFatal (S := quietScope ns) (fun h => h rfl)
    (run_covered (fun _ => id) hwithin hrun e he hthread)

/-! ### A link event without a target -/

/-- A link throw event that has no catch event. -/
def linkEvent : Element :=
  { id := "link", type := .linkIntermediateThrowEvent, execute := "billing" }

/-- A workflow with the event. -/
def linkWorkflow : Workflow :=
  { process := AList.singleton "process" { id := "process", elements := [linkEvent] } }

/-- A token at the event. -/
def linkToken : WorkflowState where
  workflowId := "workflow"
  executionId := "execution"
  processId := "process"
  processInstanceId := "instance"
  elementId := "link"
  elementType := .linkIntermediateThrowEvent
  id := ["instance", "token"]

/-- The world while the process instance is alive. -/
def linkWorld : World := ({} : World).running "default" linkWorkflow

/-- The handling of a message of the token. -/
def linkWork (work : Work) (_ : Unit) : P Settlement :=
  serve "default" (work.handler (constLib ∅) "default" linkToken)

theorem constLib_raises (vals : GoMap Value) (p : Err → Prop) : (constLib vals).Raises p where
  unmarshal := fun _ _ h => nomatch h
  marshal := fun _ _ h => nomatch h
  eval := fun _ _ _ h => nomatch h
  getVariables := fun _ _ h => nomatch h
  shift := fun _ _ _ h => nomatch h

/-- The history of an activity cannot be written. The fatal error is logged and not signalled. -/
theorem fatal_error_not_signalled_traversal :
    ∃ c, Run (env anyFault) (.start linkWorld (linkWork .traversal)) c ∧
      c.threads () = .ret .ack ∧ (∃ e ∈ c.trace,
        e.op.logsError "workflow fatally terminated whilst processing activity" = true) ∧
      ∀ e ∈ c.trace, e.thread = () → e.op.signalsFatal = false := by
  obtain ⟨c, hrun, hacked, hlogged⟩ := exists_run_of_reaches anyFault
    (.start linkWorld (linkWork .traversal))
    (List.replicate 14 ((), .ok) ++ [((), .fail), ((), .ok)])
    (fun c => c.threads () = .ret .ack ∧ ∃ e ∈ c.trace,
      e.op.logsError "workflow fatally terminated whilst processing activity" = true)
    (by decide +kernel)
  exact ⟨c, hrun, hacked, hlogged, fatal_error_not_signalled (constLib ∅)
    (constLib_raises ∅ _) anyFault linkWorld (linkWork .traversal) () "default" .traversal
    linkToken rfl c hrun⟩

/-- **A token that is dropped.** The link event has no target, which is fatal. The error is logged
and the message acknowledged. Nothing is published, and the process instance stays. -/
theorem link_token_dropped :
    ∃ c, Run (env noFault) (.start linkWorld (linkWork .activityComplete)) c ∧
      c.threads () = .ret .ack ∧ (∃ e ∈ c.trace,
        e.op.logsError "workflow fatal error occurred processing function" = true) ∧
      c.state.log = [] ∧ c.state.value ⟨"default", .wfProcessInstance, "instance"⟩ ≠ none :=
  exists_run_of_reaches noFault _ (List.replicate 10 ((), .ok)) _ (by decide +kernel)

end SharWorkflow
