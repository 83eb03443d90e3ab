import SharWorkflow.Engine.Keeps

/-!
# A launch under a discipline

The functions that start a process, in the terms of `Nats/Keeps.lean`. A discipline that allows the
calls of a launch (`AllowsLaunch`) still has a say in the process instances that are created.
-/

namespace SharWorkflow

open Concurrent Discipline

/-- The discipline allows the calls that create executions and process instances, apart from those
that write a process instance. -/
structure AllowsRecords (D : Discipline Op Ans Unit) (ns : String) : Prop where
  kvsFor : D.may () (.kvsFor ns)
  get : ∀ b key, D.may () (.get ⟨ns, b, key⟩)
  newId : D.may () .newId
  cacheGet : ∀ id, D.may () (.cacheGet id)
  cacheSet : ∀ id wf, Finds D ⟨ns, .wf, id⟩ wf → D.may () (.cacheSet id wf)
  ensureBucket : ∀ name, D.may () (.ensureBucket name)
  execution : ∀ id v, D.may () (.put ⟨ns, .wfExecution, id⟩ v)
  update : ∀ id v rev, D.may () (.update ⟨ns, .wfExecution, id⟩ v rev)

/-- What a launch sends messages on. -/
def launchSubjects : List Subject :=
  [.processExecute, .traversalExecute, .executionExecute, .executionAbort,
    .systemWorkflowDisableLaunchAttempted]

/-- The messages of a launch. The order to abort an execution names no process instance. -/
structure Msg.OfLaunch (ns : String) (m : Msg) : Prop where
  ns : m.ns = ns
  subject : m.subject ∈ launchSubjects
  abort : m.subject = .executionAbort →
    ∀ state, m.payload = .state state → state.processInstanceId = ""

/-- The discipline allows the calls of a launch, apart from those that write a process instance. -/
structure AllowsLaunch (D : Discipline Op Ans Unit) (ns : String) : Prop
    extends AllowsRecords D ns where
  now : D.may () .now
  history : ∀ key v, D.may () (.put ⟨ns, .wfHistory, key⟩ v)
  publish : ∀ m, m.OfLaunch ns → D.may () (.publish m)

variable {D : Discipline Op Ans Unit} {E : Err → Prop} [PassesOn D E] {ns : String}

section Records

variable (h : AllowsRecords D ns)
include h

/-- The execution is written, whether or not the definition is found. -/
theorem yields_createExecution {workflowId workflowName : String} :
    Yields D (fun _ => True) (createExecution ns workflowId workflowName) E := by
  refine (yields_newId h.newId).andThen fun id => (yields_nsKVs h.kvsFor).andThen fun _ => ?_
  refine Yields.seq (Yields.attempt (yields_getWorkflow h.kvsFor (h.cacheGet _) (h.get _ _)
    (h.cacheSet _))) fun found hfound => ?_
  refine (yields_saveObj (h.execution _ _)).wrap.andThen fun _ => ?_
  refine (yields_ofExcept found fun _ => hfound.error).wrap.andThen fun wf => ?_
  exact (Yields.forM fun m _ => (yields_ensureBucket (h.ensureBucket _)).wrap).andThen fun _ =>
    yields_pure trivial

/-- A process instance has a new id, and is entered into its execution. -/
theorem yields_createProcessInstance {launch : Launch} {processId : String}
    (hput : ∀ id, D.step () .newId id () →
      D.may () (.put ⟨ns, .wfProcessInstance, id⟩ (launch.instance processId id))) :
    Yields D (fun pi => ∃ id, pi = launch.instance processId id)
      (createProcessInstance ns launch processId) E := by
  refine (yields_newId h.newId).seq fun id hid => (yields_nsKVs h.kvsFor).andThen fun _ => ?_
  refine (yields_loadFor (b := .wfExecution) h.kvsFor (h.get _ _)).wrap.andThen fun wfi => ?_
  refine (yields_saveObj (hput id hid)).wrap.andThen fun _ => ?_
  refine Yields.wrap_bind (yields_updateObj (h.get _ _) (fun _ _ _ _ _ => h.update _ _ _)
    (.inl (h.execution _ _)) nofun) fun _ => ?_
  exact yields_pure ⟨id, rfl⟩

end Records

section Launch

variable (h : AllowsLaunch D ns) {launch : Launch} {processId workflowName wfID parentpiID : String}
  {wf : Workflow} {vrs headers : Bytes}
include h

/-- A state is published that no user task waits for. -/
theorem yields_publishLaunch {subject : Subject} {state : WorkflowState}
    (hsubject : subject ∈ launchSubjects)
    (habort : subject = .executionAbort → state.processInstanceId = "") :
    Yields D (fun _ => True) (publishWorkflowState ns subject state) E := by
  refine yields_publishWorkflowState h.now (fun t => h.publish _ ⟨rfl, hsubject, ?_⟩)
    fun htask => ?_
  · rintro ha _ ⟨⟩
    exact habort ha
  · rw [htask] at hsubject
    exact absurd hsubject (by decide)

theorem yields_launchStart {pi : String} {el : Element} :
    Yields D (fun _ => True) (launchStart ns launch processId pi el) E := by
  refine (yields_newId h.newId).andThen fun id => ?_
  refine Yields.wrap_bind (yields_publishLaunch h (by decide) nofun) fun _ => ?_
  refine Yields.wrap_bind (yields_recordHistory h.kvsFor h.history).wrap fun _ => ?_
  exact Yields.wrap_bind (yields_publishLaunch h (by decide) nofun) fun _ => yields_pure trivial

/-- Each process of a launch has its own process instance. -/
theorem yields_launchProcess {lib : Lib} {pr : Process}
    (hput : ∀ id, D.step () .newId id () →
      D.may () (.put ⟨ns, .wfProcessInstance, id⟩ (launch.instance pr.id id)))
    (hvars : ∀ e, lib.readVars launch.vars = .error e → E e := by exact fun _ _ => trivial)
    (hcheck : ∀ vals transform e, checkStartVars lib vals transform = .error e → E e := by
      exact fun _ _ _ _ => trivial) :
    Yields D (fun _ => True) (launchProcess lib ns launch pr) E := by
  refine (yields_ofExcept _ hvars).wrap.andThen fun vals => ?_
  refine Yields.wrap_bind (Yields.forM fun el _ => (yields_ofExcept _ (hcheck _ _)).any.wrap)
    fun _ => Yields.when (fun _ => ?_) fun _ => trivial
  refine (yields_createProcessInstance h.toAllowsRecords hput).wrap.andThen fun pi => ?_
  exact Yields.forM fun el _ => (yields_launchStart h).wrap

/-- The execution is written before it is announced. -/
theorem yields_beginExecution :
    Yields D (fun _ => True) (beginExecution ns workflowName wfID wf vrs) E := by
  refine (yields_createExecution h.toAllowsRecords).wrap.andThen fun e => ?_
  refine Yields.attempt_bind (yields_publishLaunch h (by decide) nofun)
    (fun _ => yields_pure trivial) fun err herr => ?_
  have hrollback : Yields D (fun _ => True) (rollBackLaunch ns e) E :=
    Yields.andThen (Yields.attempt (yields_publishLaunch h (by decide) fun _ => rfl)) fun _ =>
      yields_pure trivial
  exact hrollback.andThen fun _ => yields_throw _ (PassesOn.wrap (D := D) _ herr)

theorem yields_launchContext :
    Yields D (fun _ => True) (launchContext ns parentpiID workflowName wfID wf vrs headers) E := by
  refine Yields.ite (fun _ => (yields_beginExecution h).andThen fun _ => yields_pure trivial)
    fun _ => ?_
  refine (yields_loadFor (b := .wfProcessInstance) h.kvsFor (h.get _ _)).wrap.andThen fun pi => ?_
  exact (yields_loadFor (b := .wfExecution) h.kvsFor (h.get _ _)).wrap.andThen fun e =>
    yields_pure trivial

theorem yields_checkEnabled {wfv : WorkflowVersions} :
    Yields D (fun _ => True) (checkEnabled ns workflowName wfv) E := by
  refine Yields.when (fun _ => ?_) fun _ => trivial
  refine (yields_publishMsg
    (h.publish _ ⟨rfl, by simp [launchSubjects], by rintro ⟨⟩⟩)).wrap.wrap.andThen fun _ => ?_
  exact (yields_throw _ (PassesOn.text D _)).wrap

end Launch

end SharWorkflow
