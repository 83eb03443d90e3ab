import SharWorkflow.Engine.Scope
import SharWorkflow.Engine.Executions
import SharWorkflow.Launch.Keeps

/-!
# The scopes of the handlers

Joins, launches, and the handlers of the messages by which a process instance goes on: none of them
leaves the namespace of its message. The process instance is written when a join closes and when a
process is launched, and it is deleted at the end of a called process only. The order to abort an
execution deletes nothing when there is no process instance that it names.

* `within_serve`: what the dispatcher makes of a handler.
-/

namespace SharWorkflow

open Concurrent Discipline Scope Local Yields

variable {lib : Lib} {α : Type} {S : Scope}

/-! ### Gateways -/

variable {job : WorkflowState}

/-- A join that closes is noted in the process instance. -/
theorem local_completeGateway (hw : ∀ l, S.writes l) : Local S (completeGateway S.ns job) := by
  refine andThen (yields_mark trivial) fun _ => deref_bind fun gwIID _ => andThen (yields_nsKVs rfl)
    fun _ => ?_
  refine wrap_bind (local_updateObj ⟨rfl, fun _ => hw _⟩ fun _ => trivial) fun _ => ?_
  refine wrap_bind local_completeActivity fun _ => ?_
  exact wrap (yields_delete ⟨rfl, nofun⟩)

/-- The errors of a merge are those of the libraries. -/
theorem allows_mergeBranches (h : lib.Tame S) {base : GoMap Value} {i : Nat} {bs : List Bytes}
    {ret : Vars} {merged : Except Err Vars}
    (hmerged : lib.mergeBranches base i bs ret = some merged) : S.Allows merged := by
  induction bs generalizing i ret with
  | nil =>
    cases hmerged
    trivial
  | cons b rest ih =>
    unfold Lib.mergeBranches at hmerged
    split at hmerged
    · cases hmerged
      exact ((h.readVars b).error ‹_›).wrap _
    · split at hmerged
      · cases hmerged
      · exact ih hmerged

variable {gw : Gateway}

theorem allows_mergeGatewayVars (h : lib.Tame S) {merged : Except Err Bytes}
    (hmerged : lib.mergeGatewayVars gw = some merged) : S.Allows merged := by
  unfold Lib.mergeGatewayVars at hmerged
  split at hmerged
  · cases hmerged
  · cases hmerged
    trivial
  · split at hmerged
    · cases hmerged
      exact ((h.decode _).error ‹_›).wrap _
    · split at hmerged
      · cases hmerged
      · cases hmerged
        exact (allows_mergeBranches h ‹_›).error rfl
      · split at hmerged
        · cases hmerged
          exact ((h.encode _).error ‹_›).wrap _
        · cases hmerged
          trivial

theorem local_closeGateway (h : lib.Tame S)
    (hw : ∀ l, S.writes l) : Local S (closeGateway lib S.ns job gw) := by
  refine andThen (deref_bind fun merged hmerged => ?_) fun _ => local_completeGateway hw
  exact mapError (local_ofExcept (allows_mergeGatewayVars h hmerged)) fun _ _ =>
    (fine_workflowFatal_none).wrap _

/-- The arrival of a token closes the join or waits for the others. -/
theorem local_settleArrival (h : lib.Tame S) {gatewayIID : String}
    {el : Option Element} (hw : ∀ l, S.writes l) :
    Local S (settleArrival lib S.ns job gatewayIID el gw) := by
  refine deref_bind fun _ _ => deref_bind fun _ _ => ?_
  split
  · exact local_closeGateway h hw
  · refine deref_bind fun _ _ => Yields.ite (fun _ => local_closeGateway h hw) fun _ => ?_
    exact andThen (local_publishWorkflowState nofun nofun) fun _ => local_pure

/-! ### Launches -/

/-- The executions and the process instances that a launch writes. -/
structure LaunchWrites (ns : String) (w : Loc → Prop) : Prop where
  execution : ∀ id, w ⟨ns, .wfExecution, id⟩
  processInstance : ∀ id, id ≠ "" → w ⟨ns, .wfProcessInstance, id⟩

variable {processId : String}

variable {workflowName : String}

theorem local_checkProcessTaskDeprecation {workflow : Workflow} :
    Local S (checkProcessTaskDeprecation S.ns workflow processId) := by
  refine deref_bind fun pr _ => Yields.forM fun el _ => local_when fun _ => ?_
  refine deref_bind fun version _ => ?_
  refine wrap_bind (yields_loadFrom (b := .wfTaskSpec) rfl rfl) fun spec => ?_
  exact Yields.ite (fun _ => yields_throw _ (fine_text _)) fun _ => local_pure

/-- A launch keeps to a scope that allows what it writes. -/
theorem LaunchWrites.allowsLaunch (hw : LaunchWrites S.ns S.writes) :
    AllowsLaunch S.discipline S.ns where
  kvsFor := rfl
  get _ _ := rfl
  newId := trivial
  cacheGet _ := trivial
  cacheSet _ _ _ := trivial
  ensureBucket _ := trivial
  execution id _ := ⟨rfl, fun _ => hw.execution id⟩
  update id _ _ := ⟨rfl, fun _ => hw.execution id⟩
  now := trivial
  history _ _ := ⟨rfl, nofun⟩
  publish m hm := by
    have hordinary : ∀ subject ∈ launchSubjects, subject.isSpecial = false := by decide
    exact ⟨hm.ns, fun hspecial => by simp [hordinary _ hm.subject] at hspecial, hm.abort⟩

/-- The errors about the variables of a start event are those of the libraries, or a sentinel. -/
theorem allows_checkStartVars (h : lib.Tame S) (vals : GoMap Value) (transform : List String) :
    S.Allows (checkStartVars lib vals transform) := by
  induction transform with
  | nil => trivial
  | cons v rest ih =>
    unfold checkStartVars
    split
    · exact (h.getVariables v _ ‹_›).wrap _
    · split
      · exact (fine_sentinel _).wrap _
      · exact ih

variable {wf : Workflow} {participants : List Participant}

theorem allows_collaborationProcesses :
    S.Allows (collaborationProcesses wf processId participants) := by
  induction participants with
  | nil => trivial
  | cons i rest ih =>
    unfold collaborationProcesses
    split
    · exact fine_text _
    · split
      · exact ih.error ‹_›
      · trivial

theorem allows_launchProcesses : S.Allows (launchProcesses wf processId participants) := by
  unfold launchProcesses
  split
  · exact allows_collaborationProcesses.error ‹_›
  · split
    · trivial
    · split
      · exact fine_text _
      · trivial

/-- A launch writes the execution, unless there is one, and a process instance for each process. -/
theorem local_launchWithParent (h : lib.Tame S) {ID : TrackingID} {vrs headers : Bytes}
    {parentpiID parentElID : String} (hw : LaunchWrites S.ns S.writes) :
    Local S (launchWithParent lib S.ns processId ID vrs headers parentpiID parentElID) := by
  refine andThen (local_engineErr (andThen (yields_nsKVs rfl) fun _ =>
    notFound (any (yields_load (l := ⟨_, .wfProcess, _⟩) rfl)))) fun workflowName => ?_
  refine andThen (attempt (any (yields_loadFor (b := .wfVersion) rfl rfl))) fun found => ?_
  refine deref_bind fun wfv _ => andThen (yields_checkEnabled hw.allowsLaunch) fun _ => ?_
  refine deref_bind fun version _ => ?_
  refine andThen (local_engineErr local_getWorkflow) fun wf => ?_
  refine wrap_bind local_checkProcessTaskDeprecation fun _ => ?_
  refine andThen (yields_launchContext hw.allowsLaunch) fun context => deref_bind fun _ _ => ?_
  refine andThen (local_ofExcept allows_launchProcesses) fun prs => ?_
  refine andThen (Yields.forM fun _ _ => ?_) fun _ => local_pure
  exact yields_launchProcess hw.allowsLaunch
    (fun _ hid => ⟨rfl, fun _ => hw.processInstance _ hid.2⟩)
    (fun _ => (h.readVars _).error) fun _ _ _ => (allows_checkStartVars h _ _).error

variable {state : WorkflowState}

theorem local_launchProcessor (h : lib.Tame S) (hw : LaunchWrites S.ns S.writes) :
    Local S (launchProcessor lib S.ns state) := by
  refine andThen (local_fatal local_getWorkflow) fun wf => ?_
  refine wrap_bind local_getProcessInstance fun pi => deref_bind fun el _ => ?_
  exact andThen (local_engineErr (local_fatal (local_launchWithParent h hw))) fun _ => local_pure

/-! ### Handlers -/

theorem local_processTraversals (h : lib.Tame S) {traversal : WorkflowState} :
    Local S (processTraversals lib S.ns traversal) := by
  refine option_bind (local_acking (local_optional local_hasValidProcess)) local_pure fun _ => ?_
  refine acking_bind (any (yields_newId trivial)) fun activityID => ?_
  refine acking_attempt_bind (local_activityStartProcessor h) (fun _ => local_pure) fun e he => ?_
  refine Yields.ite (fun _ => ?_) fun _ => yields_throw _ (he.wrap _)
  exact acking_bind local_logError fun _ => local_pure

/-- The end of an activity may be that of its process instance. -/
theorem local_processActivities (h : lib.Tame S) {activity : WorkflowState}
    (hd : Destroys S.writes S.deletes S.publishes) (hj : S.publishes .jobLaunchComplete) :
    Local S (processActivities lib S.ns activity) :=
  acking_bind (local_activityCompleteProcessor h hd hj) fun _ => local_pure

theorem local_processCompletedJobs (h : lib.Tame S) :
    Local S (processCompletedJobs lib S.ns job) := by
  refine option_bind (local_acking (local_optional local_hasValidProcess)) local_pure fun _ => ?_
  refine acking_bind (Yields.ite (fun _ => ?_) fun _ => ?_) fun _ => local_pure
  · exact wrap (local_compensationJobComplete h)
  · exact local_completeJobProcessor h

theorem local_processLaunch (h : lib.Tame S) (hw : LaunchWrites S.ns S.writes) :
    Local S (processLaunch lib S.ns job) := by
  refine acking_attempt_bind local_hasValidProcess (fun _ => ?_) fun e he => yields_throw _ he
  exact acking_bind (wrap (local_launchProcessor h hw)) fun _ => local_pure

theorem allows_getGatewayInstanceID {found : Except Err (String × String)}
    (h : getGatewayInstanceID state = some found) : S.Allows found := by
  unfold getGatewayInstanceID at h
  split at h
  · cases h
    exact (fine_sentinel _).wrap _
  · split at h
    · cases h
    · split at h
      · cases h
        trivial
      · cases h

theorem local_gatewayExecProcessor (h : lib.Tame S) (hw : ∀ l, S.writes l) :
    Local S (gatewayExecProcessor lib S.ns job) := by
  refine acking_attempt_bind local_hasValidProcess (fun _ => ?_) fun e he => yields_throw _ he
  refine acking_bind (local_fatal local_getWorkflow) fun wf => ?_
  refine acking_bind (local_deref _) fun pr => acking_deref_bind fun found hfound => ?_
  refine acking_bind (wrap (local_ofExcept (allows_getGatewayInstanceID hfound)))
    fun route => acking_bind (yields_nsKVs rfl) fun _ => ?_
  refine acking_bind (wrap (local_updateObj ⟨rfl, nofun⟩ fun _ => trivial)) fun gw => ?_
  exact acking_bind (local_settleArrival h hw) fun _ => local_pure

theorem local_processGatewayActivation : Local S (processGatewayActivation S.ns job) := by
  refine acking_bind (yields_nsKVs rfl) fun _ => ?_
  refine option_bind (local_acking (local_optional local_hasValidProcess)) local_pure fun _ => ?_
  refine acking_bind (local_deref _) fun found => ?_
  have hpublish : ∀ (c : Prop) [Decidable c] (text : String), Local S (do
      let _ ← Act.acking false (Act.wrap text (publishWorkflowState S.ns
        (if c then .jobGatewayTaskExecute else .jobGatewayTaskReEnter) job))
      return true : Handler Bool) := by
    intro c _ text
    refine acking_bind (wrap (local_publishWorkflowState ?_ ?_)) fun _ => local_pure
    all_goals split <;> nofun
  exact acking_attempt_bind (any (yields_loadObj (l := ⟨_, .wfGateway, _⟩) rfl))
    (fun _ => hpublish _ _) fun _ he =>
    Yields.ite (fun _ => yields_throw _ (he.wrap _)) fun _ => hpublish _ _

/-- **The handlers by which a process instance goes on** keep to their scope. Only that of a
completed activity may destroy the instance. -/
theorem local_work (h : lib.Tame S) (hw : ∀ l, S.writes l) {work : Work}
    (hd : work = .activityComplete →
      Destroys S.writes S.deletes S.publishes ∧ S.publishes .jobLaunchComplete) :
    Local S (work.handler lib S.ns state) := by
  cases work with
  | traversal => exact local_processTraversals h
  | activityComplete => exact local_processActivities h (hd rfl).1 (hd rfl).2
  | jobComplete => exact local_processCompletedJobs h
  | gatewayActivate => exact local_processGatewayActivation
  | gatewayExecute => exact local_gatewayExecProcessor h hw
  | launch => exact local_processLaunch h ⟨fun _ => hw _, fun _ _ => hw _⟩

/-! ### Messages about executions -/

variable {subject : Subject}

theorem local_track {st : WorkflowState} : Local S (track S.ns subject st) := by
  refine acking_bind (yields_nsKVs rfl) fun _ => ?_
  split
  · exact acking_bind (any (wrap (yields_saveObj ⟨rfl, nofun⟩))) fun _ => local_pure
  · exact acking_bind (wrap (yields_kvDelete ⟨rfl, nofun⟩)) fun _ => local_pure
  · exact local_pure

/-- Only the end of an execution destroys anything. -/
theorem local_processWorkflowEvents (h : subject ≠ .executionComplete) :
    Local S (processWorkflowEvents S.ns subject job) :=
  Yields.ite (fun hs => absurd hs h) fun _ => local_pure

/-- A process instance that is not there is not found. -/
theorem yields_instanceOrMissing_of_vacant
    (h : S.vacant ⟨S.ns, .wfProcessInstance, state.processInstanceId⟩) :
    Yields S.discipline (· = none) (instanceOrMissing S.ns state) S.Fine := by
  have hfound : Yields S.discipline (Finds S.discipline ⟨S.ns, .wfProcessInstance, _⟩)
      (getProcessInstance S.ns state.processInstanceId) S.Fine := yields_loadFor rfl rfl
  refine wrap (mono (Yields.optional hfound) fun found hnone => ?_)
  refine Option.eq_none_iff_forall_ne_some.2 fun pi hpi => ?_
  obtain ⟨entry, hentry, -⟩ := hnone pi hpi
  exact hentry.2 h entry rfl

/-- An order to abort that names no stored process instance deletes nothing. -/
theorem local_processGeneralAbort
    (h : subject = .executionAbort → S.vacant ⟨S.ns, .wfProcessInstance, state.processInstanceId⟩) :
    Local S (processGeneralAbort S.ns subject state) := by
  refine Yields.ite (fun hsubject => ?_) fun _ => local_pure
  refine acking_bind (wrap ?_) fun _ => local_pure
  refine andThen (yields_nsKVs rfl) fun _ => wrap_bind local_getExecution fun execution => ?_
  refine seq (yields_instanceOrMissing_of_vacant (h hsubject)) fun pi hpi => ?_
  subst hpi
  exact local_pure

/-! ### The dispatcher -/

theorem within_logFatal (e : Err) : S.Within (fun _ => True) (logFatal e) := by
  unfold logFatal
  split
  · exact Ensures.bind local_logError fun _ _ => ensures_ret trivial
  · exact ensures_ret trivial

/-- An error without a state is not signalled. -/
theorem signal_processed_of_stateless {e : Err} {backoff ack : Bool} (h : e.Stateless) :
    (processed backoff ack (some e)).signal = none := by
  cases hstate : e.as Err.fatalState? with
  | none =>
    simp only [processed, hstate]
    split <;> rfl
  | some state =>
    cases state with
    | none => simp only [processed, hstate]
    | some state => exact absurd hstate (h state)

/-- The dispatcher stays in the scope of the handler. -/
theorem within_serve {handler : Handler Bool} (h : Local S handler) :
    Within S (fun _ => True) (serve S.ns handler) := by
  refine Ensures.bind h ?_
  rintro (⟨ack, e⟩ | ack) hr
  · have hfine : S.Fine e := hr
    refine Ensures.bind (within_logFatal e) fun _ _ => ?_
    dsimp only
    split
    · exact ensures_ret trivial
    · rename_i state hsignal
      have hfatal : S.publishes .systemProcessFatalError := hfine.resolve_right fun hstateless => by
        rw [signal_processed_of_stateless (e := e) hstateless] at hsignal
        cases hsignal
      have hpublish : Local S (publishMsg ⟨S.ns, .systemProcessFatalError,
          .fatalError ⟨.tearDown, state⟩, 0⟩) := local_publishMsg rfl (fun _ => hfatal) nofun
      exact Ensures.bind (Q := fun _ => True) (Ensures.bind hpublish fun _ _ => ensures_ret trivial)
        fun _ _ => ensures_ret trivial
  · exact ensures_ret trivial

end SharWorkflow
