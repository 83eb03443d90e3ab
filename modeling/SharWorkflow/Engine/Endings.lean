import SharWorkflow.Engine.Boundary
import SharWorkflow.Engine.Conduct

/-!
# How process instances end

The operations that destroy a process instance, for conducts that take no notice of it. An error
that the workflow does not know ends the process instance this way.
-/

namespace SharWorkflow

open Concurrent Discipline

-- sequences are split by `keeps_seq`
attribute [-simp] ExceptT.run_bind

/-- The subjects on which the end of a process instance is published. -/
def Subject.isEnding (subject : Subject) : Bool :=
  subject = .processTerminated || subject = .executionComplete || subject = .executionTerminated ||
    subject = .jobServiceTaskAbort

namespace Conduct

variable {L : Type} {C : Conduct L} {l : L} {ns : String}

/-- The conduct takes no notice of the end of a process instance, or of failures. -/
structure EndsQuietly (C : Conduct L) (ns : String) : Prop where
  failed : ∀ l, C.failed l = l
  execution : ∀ id, C.Neutral ⟨ns, .wfExecution, id⟩
  noted_instance : ∀ l id, C.noted l ⟨ns, .wfProcessInstance, id⟩ = l
  noted_workflow : ∀ l id, C.noted l ⟨ns, .wf, id⟩ = l
  mayDelete : ∀ l loc, C.mayDelete l loc
  deleted : ∀ l loc, C.deleted l loc = l
  mayPublish : ∀ l m, m.subject.isEnding = true → C.mayPublish l m
  published : ∀ l m, m.subject.isEnding = true → C.published l m = l

section

variable (h : C.EndsQuietly ns)
include h

theorem EndsQuietly.keeps_publish (subject : Subject)
    {state : WorkflowState} {Q : L → Except Err WorkflowState → Prop}
    (hsubject : subject.isEnding = true) : C.Keeps Q l (publishWorkflowState ns subject state).run ↔
      ∀ time, Q l (.ok (state.stamped time)) ∧ (C.faulty l → ∀ text,
        Q l (.error (.wrap "publish workflow state message" (.nats text)))) := by
  have hne : subject ≠ .jobUserTaskExecute := by
    rintro rfl
    exact absurd hsubject (by decide)
  have hmay : ∀ time, C.mayPublish l (stateMsg ns subject state time 0) :=
    fun time => h.mayPublish _ _ hsubject
  have hpublished : ∀ time, C.published l (stateMsg ns subject state time 0) = l :=
    fun time => h.published _ _ hsubject
  simp only [keeps_publishWorkflowState hne, hmay, hpublished, h.failed, true_and]

variable {R : L → Unit → Prop} {E : L → Prop} {state : WorkflowState}

theorem leads_destroyProcessInstance {processInstanceId executionId : String}
    (hok : R l ()) (herror : E l) :
    C.Leads R E l (destroyProcessInstance ns state processInstanceId executionId) := by
  unfold destroyProcessInstance
  simp only [leads_seq, keeps_nsKVs, keeps_liftM, h.failed, outcome_ok, outcome_error, herror,
    implies_true, and_true]
  refine Keeps.updateObjMsg_of_neutral (h.execution _) h.failed fun r => ?_
  obtain ⟨_ | _, e⟩ := r
  · simp [h.failed, h.mayDelete, h.deleted, herror]
  · simp [h.failed, h.mayDelete, h.deleted, h.keeps_publish .processTerminated rfl,
      h.keeps_publish .executionComplete rfl, hok, herror]

theorem leads_deleteExecution (hok : R l ()) (herror : E l) :
    C.Leads R E l (deleteExecution ns state) := by
  simp [deleteExecution, h.failed, h.mayDelete, h.deleted,
    h.keeps_publish .executionTerminated rfl, hok, herror]

/-- The process instance of a state is found or missing, and nothing is done about it. -/
theorem leads_instanceOrMissing {R : L → Option ProcessInstance → Prop}
    (hok : ∀ pi, R l pi) (herror : E l) : C.Leads R E l (instanceOrMissing ns state) := by
  simp [instanceOrMissing, getProcessInstance, keeps_loadFor ⟨_, .wfProcessInstance, _⟩, h.failed,
    h.noted_instance, hok, herror, outcome_iff]

theorem leads_xDestroyProcessInstance (hok : R l ()) (herror : E l) :
    C.Leads R E l (xDestroyProcessInstance ns state) := by
  have hdelete : ∀ state : WorkflowState, C.Leads R E l (deleteExecution ns state) := fun state =>
    leads_deleteExecution h hok herror
  refine leads_seq.2 (keeps_nsKVs.2 ⟨?_, fun _ _ => by rw [h.failed]; exact herror⟩)
  refine leads_seq.2 (keeps_wrap.2 ((keeps_loadFor ⟨_, .wfExecution, _⟩).2 ⟨fun execution _ => ?_,
    fun _ => herror, fun _ _ => by rw [h.failed]; exact ⟨herror, herror⟩⟩))
  rw [(h.execution _).noted]
  refine leads_seq.2 (leads_instanceOrMissing h (fun pi => ?_) herror)
  cases pi with
  | none => exact keeps_pure.2 hok
  | some pi =>
    simp only [leads_seq, keeps_wrap, outcome_mapError]
    refine leads_destroyProcessInstance h (keeps_when.2 ⟨fun _ => leads_seq.2 (keeps_attempt.2
      (keeps_loadObj.2 ?_)), fun _ => hdelete _⟩) herror
    -- the definition is read for the log
    refine ⟨fun _ _ => keeps_pure.2 ?_, fun _ => keeps_pure.2 (hdelete _),
      fun _ _ => keeps_pure.2 ?_⟩
    · rw [h.noted_workflow]
      exact hdelete _
    · rw [h.failed]
      exact hdelete _

/-- **An unknown error** ends the process instance, and is reported. -/
theorem leads_haltWorkflow {errorCode : String} (herror : E l) :
    C.Leads R E l (haltWorkflow ns errorCode state) := by
  unfold haltWorkflow cancelProcessInstance
  refine leads_seq.2 (keeps_mapError.2 ((h.keeps_publish _ rfl).2 fun time =>
    ⟨?_, fun _ _ => herror⟩))
  refine leads_seq.2 (keeps_mapError.2 (keeps_run_ite.2 ⟨fun _ => keeps_throw.2 herror,
    fun _ => ?_⟩))
  simp only [keeps_mapError, outcome_mapError]
  exact leads_xDestroyProcessInstance h (keeps_throw.2 herror) herror

end

end Conduct

end SharWorkflow
