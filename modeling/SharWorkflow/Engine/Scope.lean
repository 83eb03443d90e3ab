import SharWorkflow.Engine.Keeps
import SharWorkflow.Engine.Start
import SharWorkflow.Nats.Scope

/-!
# The scopes of the engine

Every handler of the engine keeps to the namespace of its message. Here it is shown for each
function in which scope it stays: which ones write or delete executions and process instances, and
that the errors of all of them are without a state as long as those of the libraries are
(`Lib.Tame`).

The proofs are written like the functions.
-/

namespace SharWorkflow

open Concurrent Discipline Scope Local Yields

/-! ### Libraries -/

/-- Every error of the libraries meets the condition. -/
structure Lib.Raises (lib : Lib) (p : Err → Prop) : Prop where
  unmarshal : ∀ b e, lib.unmarshal b = .error e → p e
  marshal : ∀ vals e, lib.marshal vals = .error e → p e
  eval : ∀ exp vals e, lib.eval exp vals = .error e → p e
  getVariables : ∀ exp e, lib.getVariables exp = .error e → p e
  shift : ∀ d t e, lib.shift d t = .error e → p e

/-- The errors of the libraries are ones that the scope allows. -/
def Lib.Tame (lib : Lib) (S : Scope) : Prop := lib.Raises S.Fine

theorem Lib.Raises.tame {lib : Lib} (h : lib.Raises Err.Stateless) (S : Scope) : lib.Tame S where
  unmarshal b e he := .inr (h.unmarshal b e he)
  marshal vals e he := .inr (h.marshal vals e he)
  eval exp vals e he := .inr (h.eval exp vals e he)
  getVariables exp e he := .inr (h.getVariables exp e he)
  shift d t e he := .inr (h.shift d t e he)

/-- A scope that allows every error allows those of the libraries. -/
theorem Lib.tame_of_fatal (lib : Lib) {S : Scope} (h : S.publishes .systemProcessFatalError) :
    lib.Tame S where
  unmarshal _ _ _ := .inl h
  marshal _ _ _ := .inl h
  eval _ _ _ _ := .inl h
  getVariables _ _ _ := .inl h
  shift _ _ _ _ := .inl h

namespace Lib.Tame

variable {lib : Lib} {S : Scope}

theorem decode (h : lib.Tame S) (b : Bytes) : S.Allows (lib.decode b) := by
  unfold Lib.decode
  split
  · trivial
  · split
    · trivial
    · exact (h.unmarshal b _ ‹_›).wrap _

theorem readVars (h : lib.Tame S) (b : Bytes) : S.Allows (lib.readVars b) := by
  have hdecode := h.decode b
  unfold Lib.readVars
  cases hb : lib.decode b with
  | ok vars => trivial
  | error e => exact hdecode.error hb

theorem encode (h : lib.Tame S) (vars : Vars) : S.Allows (lib.encode vars) := by
  unfold Lib.encode
  split
  · trivial
  · exact (h.marshal vars _ ‹_›).wrap _

theorem evalAny (h : lib.Tame S) (exp : String) (vals : GoMap Value) :
    S.Allows (lib.evalAny exp vals) := by
  unfold Lib.evalAny
  split
  · trivial
  · exact (h.eval exp vals _ ‹_›).wrap _
  · exact fine_workflowFatal_none.wrap _

theorem evalTransform (h : lib.Tame S) (text : String) (vals : GoMap Value)
    (transform : List (Sigma fun _ : String => String)) (acc : GoMap Value) :
    S.Allows (lib.evalTransform text vals transform acc) := by
  induction transform generalizing acc with
  | nil => trivial
  | cons entry rest ih =>
    unfold Lib.evalTransform
    split
    · exact ((h.evalAny _ vals).error ‹_›).wrap text
    · exact ih _

theorem writeTransform (h : lib.Tame S) {text : String} {vals : GoMap Value}
    {transform : List (Sigma fun _ : String => String)} {acc : Vars} {r : Except Err Vars}
    (hr : lib.writeTransform text vals transform acc = some r) : S.Allows r := by
  unfold Lib.writeTransform at hr
  split at hr
  · cases hr
    have hloop := h.evalTransform text vals transform ‹_›
    cases hvals : lib.evalTransform text vals transform ‹_› with
    | ok vals => trivial
    | error e => exact hloop.error hvals
  · split at hr
    · cases hr
      trivial
    · split at hr
      · cases hr
        exact ((h.evalAny _ vals).error ‹_›).wrap text
      · cases hr

variable {r : Except Err Bytes}

theorem encodeTransform (h : lib.Tame S) {evalText encodeText : String} {vals : GoMap Value}
    {transform : List (Sigma fun _ : String => String)} {acc : Vars}
    (hr : lib.encodeTransform evalText encodeText vals transform acc = some r) : S.Allows r := by
  unfold Lib.encodeTransform at hr
  repeat' split at hr
  all_goals cases hr
  · exact (h.writeTransform ‹_›).error rfl
  · exact ((h.encode _).error ‹_›).wrap _
  · trivial

theorem outputVars (h : lib.Tame S) {order : MapOrder} {newVarsBin mergeVarsBin : Bytes}
    {transform : Option (GoMap String)}
    (hr : lib.outputVars order newVarsBin mergeVarsBin transform = some r) : S.Allows r := by
  unfold Lib.outputVars at hr
  split at hr
  · cases hr
    trivial
  · split at hr
    · cases hr
      exact ((h.readVars newVarsBin).error ‹_›).wrap _
    · split at hr
      · cases hr
        exact ((h.decode mergeVarsBin).error ‹_›).wrap _
      · exact h.encodeTransform hr

end Lib.Tame

variable {lib : Lib} {α : Type} {S : Scope}

/-! ### Operations -/

theorem local_publishMsg {m : Msg} (h : m.ns = S.ns)
    (hspecial : m.subject.isSpecial = true → S.publishes m.subject)
    (habort : m.subject = .executionAbort → m.NamesNoInstance) : Local S (publishMsg m) :=
  yields_publishMsg ⟨h, hspecial, habort⟩

theorem local_openUserTask {owner id : String} : Local S (openUserTask S.ns owner id) := by
  refine andThen (yields_nsKVs rfl) fun _ => wrap ?_
  exact andThen (local_updateObj ⟨rfl, nofun⟩ fun _ => trivial) fun _ => local_pure

variable {subject : Subject} {state : WorkflowState}

theorem local_publishWorkflowState {embargo : Int}
    (hspecial : subject.isSpecial = true → S.publishes subject)
    (habort : subject = .executionAbort → state.processInstanceId = "") :
    Local S (publishWorkflowState S.ns subject state embargo) := by
  refine yields_publishWorkflowState trivial (fun time => ⟨rfl, hspecial, ?_⟩) fun _ _ _ =>
    local_openUserTask
  rintro h state' ⟨⟩
  exact habort h

variable {historyType : ProcessHistoryType}

theorem local_recordHistory : Local S (recordHistory S.ns state historyType) :=
  yields_recordHistory rfl fun _ _ => ⟨rfl, nofun⟩

theorem local_recordHistoryActivityComplete :
    Local S (recordHistoryActivityComplete S.ns state) := wrap local_recordHistory

variable {processInstanceID trackingID : String}

theorem local_getProcessHistoryItem :
    Local S (getProcessHistoryItem S.ns processInstanceID trackingID historyType) :=
  yields_getProcessHistoryItem rfl fun _ => rfl

variable {x : Act α} {text : String}

/-- A pure computation that does not panic ends in an error that the scope allows, if in any. -/
theorem local_ofCall {r : Option (Except Err α)} (h : ∀ x, r = some x → S.Allows x) :
    Local S (Act.ofCall r) :=
  deref_bind fun x hx => local_ofExcept (h x hx)

theorem local_getWorkflow {workflowID : String} : Local S (getWorkflow S.ns workflowID) :=
  any (yields_getWorkflow rfl trivial rfl fun _ _ => trivial)

theorem local_getExecution {executionID : String} : Local S (getExecution S.ns executionID) :=
  any (yields_loadFor (b := .wfExecution) rfl rfl)

theorem local_getProcessInstance : Local S (getProcessInstance S.ns processInstanceID) :=
  any (yields_loadFor (b := .wfProcessInstance) rfl rfl)

theorem local_getJob : Local S (getJob S.ns trackingID) := any (yields_loadFor (b := .job) rfl rfl)

/-- An error is wrapped under a condition. -/
theorem local_wrapIf {c : Err → Bool} (hx : Local S x) :
    Local S (Act.mapError (fun e => if c e then .wrap text e else e) x) := by
  refine mapError hx fun e he => ?_
  split
  · exact he.wrap text
  · exact he

variable {executionId : String}

variable {processInstanceId : String}

theorem local_hasValidProcess : Local S (hasValidProcess S.ns processInstanceId executionId) := by
  refine andThen (local_wrapIf local_getExecution) fun execution => ?_
  refine andThen (local_wrapIf local_getProcessInstance) fun pi => ?_
  exact local_pure

/-! ### Jobs -/

variable {job : WorkflowState}

theorem local_createJob : Local S (createJob S.ns job) := by
  refine andThen (yields_nsKVs rfl) fun _ => ?_
  refine andThen (yields_newId trivial) fun tid => ?_
  refine wrap_bind (yields_saveObj ⟨rfl, nofun⟩) fun _ => ?_
  exact local_pure

theorem local_deleteJob : Local S (deleteJob S.ns trackingID) := by
  refine andThen (yields_nsKVs rfl) fun _ => ?_
  exact wrap (yields_delete ⟨rfl, nofun⟩)

variable {name : String}

theorem local_ownerID : Local S (ownerID S.ns name) := by
  refine andThen (yields_nsKVs rfl) fun _ => ?_
  refine attempt_bind (yields_kvGet rfl) (fun _ => local_pure) fun e he => ?_
  refine Yields.ite (fun _ => ?_) fun _ => yields_throw _ (he.wrap _)
  refine andThen (yields_newId trivial) fun _ => wrap_bind (yields_kvPut ⟨rfl, nofun⟩) fun _ => ?_
  exact wrap_bind (yields_kvPut ⟨rfl, nofun⟩) fun _ => local_pure

theorem local_ownerIDs {names : List String} : Local S (ownerIDs S.ns names) := by
  induction names with
  | nil => exact local_pure
  | cons v vs ih =>
    exact wrap_bind local_ownerID fun _ => andThen ih fun _ => local_pure

theorem local_evaluateOwners {owners : String} {vals : GoMap Value} :
    Local S (evaluateOwners lib S.ns owners vals) := by
  unfold evaluateOwners
  split
  · exact yields_throw _ fine_workflowFatal_none
  · exact local_ownerIDs
  · exact local_ownerIDs
  · exact local_pure

variable {el : Element} {v : Bytes}

theorem allows_jobVars : S.Allows (jobVars lib job el v) := by
  unfold jobVars
  split
  · trivial
  · split
    · trivial
    · exact fine_workflowFatal_none

theorem local_jobOwners : Local S (jobOwners lib S.ns job el v) := by
  unfold jobOwners
  split
  · split
    · exact yields_throw _ fine_workflowFatal_none
    · exact andThen (local_fatal local_evaluateOwners) fun _ =>
        andThen (local_fatal local_evaluateOwners) fun _ => local_pure
  · exact local_pure

/-- The job is routed to its task or to the mock executor. -/
theorem yields_jobSubject : Yields S.discipline (fun s => s = subject ∨ s = subject.append ".Mock")
    (jobSubject S.ns subject el) S.Fine := by
  unfold jobSubject
  split
  · refine andThen (local_deref _) fun version => ?_
    refine wrap_bind (yields_loadFrom (b := .wfTaskSpec) rfl rfl) fun spec => ?_
    split
    · exact yields_pure (.inr rfl)
    · exact yields_pure (.inl rfl)
  · exact yields_pure (.inl rfl)

/-- The subject is one of an ordinary state. -/
def Subject.IsOrdinary (subject : Subject) : Prop :=
  subject.isSpecial = false ∧ subject ≠ .executionAbort

theorem Subject.IsOrdinary.append (h : subject.IsOrdinary) (suffix : String) :
    (subject.append suffix).IsOrdinary := by
  unfold Subject.append
  split
  · exact ⟨rfl, nofun⟩
  · exact ⟨rfl, nofun⟩
  · exact h

theorem local_announceJob (hsubject : subject.IsOrdinary) :
    Local S (announceJob S.ns subject job) := by
  refine wrap_bind (local_publishWorkflowState (fun h => by simp [hsubject.1] at h) fun h => absurd
    h hsubject.2) fun job => ?_
  exact wrap (wrap local_recordHistory)

theorem local_startJob (hsubject : subject.IsOrdinary) :
    Local S (startJob lib S.ns subject job el v) := by
  refine andThen (local_ofExcept allows_jobVars) fun _ => andThen local_jobOwners fun _ => ?_
  refine seq yields_jobSubject fun s hs => ?_
  have hordinary : s.IsOrdinary := by
    rcases hs with rfl | rfl
    · exact hsubject
    · exact hsubject.append ".Mock"
  exact wrap_bind local_createJob fun _ =>
    local_when fun _ => local_announceJob hordinary

/-! ### Activities -/

theorem local_engineErr (hx : Local S x) : Local S (engineErr x) := wrap hx

theorem local_completeActivity : Local S (completeActivity S.ns state) := by
  refine andThen (local_engineErr (local_publishWorkflowState nofun nofun)) fun state => ?_
  refine andThen (local_engineErr (local_fatal local_recordHistoryActivityComplete)) fun _ => ?_
  exact local_pure

theorem allows_conditionsHold (h : lib.Tame S) (vars : Bytes) (conditions : List String) :
    S.Allows (conditionsHold lib vars conditions) := by
  induction conditions with
  | nil => trivial
  | cons ex rest ih =>
    unfold conditionsHold
    split
    · exact ((h.readVars vars).error ‹_›).wrap _
    · split
      · exact fine_workflowFatal_none
      · trivial
      · exact ih

theorem allows_takenTargets (h : lib.Tame S) (vars : Bytes) (defaultTarget : Int) (ord : Nat)
    (targets : List Target) (taken : GoMap String) :
    S.Allows (takenTargets lib vars defaultTarget ord targets taken) := by
  induction targets generalizing ord taken with
  | nil => trivial
  | cons t rest ih =>
    unfold takenTargets
    split
    · exact ih (ord + 1) taken
    · split
      · exact (allows_conditionsHold h vars _).error ‹_›
      · exact ih (ord + 1) _

variable {vars : Bytes}

theorem allows_chosenTargets (h : lib.Tame S) {outbound : Targets}
    {chosen : Except Err (GoMap String)} (hchosen : chosenTargets lib vars outbound = some chosen) :
    S.Allows chosen := by
  unfold chosenTargets at hchosen
  split at hchosen
  · cases hchosen
    exact (allows_takenTargets h _ _ _ _ _).error ‹_›
  · split at hchosen
    · obtain ⟨t, -, rfl⟩ := Option.map_eq_some_iff.1 hchosen
      trivial
    · cases hchosen
      trivial

variable {reciprocalId iid : String}

theorem local_openGateway {targets : GoMap String} :
    Local S (openGateway S.ns state targets reciprocalId iid) := by
  refine Yields.ite (fun _ => local_pure) fun _ => ?_
  exact andThen (yields_mapOrder trivial) fun _ => wrap_bind (yields_kvsFor rfl) fun _ =>
    wrap_bind (yields_saveObj ⟨rfl, nofun⟩) fun _ => local_pure

theorem local_sendBranch {trackingID : TrackingID} {el : GoMap Element} {branchID elID : String} :
    Local S (sendBranch S.ns trackingID el state reciprocalId iid branchID elID) := by
  refine andThen (yields_newId trivial) fun newID => ?_
  refine deref_bind fun target _ => ?_
  refine andThen (local_fatal local_getWorkflow) fun wf => ?_
  refine deref_bind fun pr _ => ?_
  refine deref_bind fun named _ => ?_
  refine deref_bind fun solitary _ => ?_
  refine wrap_bind (local_publishWorkflowState nofun nofun) fun _ => ?_
  exact local_pure

variable {outbound : Option Targets}

theorem local_traverse (h : lib.Tame S) {trackingID : TrackingID} {el : GoMap Element} :
    Local S (traverse lib S.ns trackingID outbound el state) := by
  cases outbound with
  | none => exact local_pure
  | some outbound =>
    refine deref_bind fun chosen hchosen => ?_
    refine andThen (local_ofExcept (allows_chosenTargets h hchosen)) fun targets => ?_
    refine deref_bind fun elem _ => deref_bind fun reciprocalId _ => ?_
    refine andThen (yields_newId trivial) fun iid => andThen local_openGateway fun state => ?_
    refine andThen (yields_mapOrder trivial) fun branches => ?_
    exact andThen (Yields.forM fun _ _ => local_sendBranch) fun _ => local_pure

theorem local_workfFlowStateFrom {activityStart : ProcessHistoryEntry} :
    Local S (workfFlowStateFrom activityStart) := by
  refine deref_bind fun workflowId _ => ?_
  refine deref_bind fun executionId _ => ?_
  refine deref_bind fun elementId _ => ?_
  refine deref_bind fun processInstanceId _ => ?_
  refine deref_bind fun state _ => ?_
  exact local_pure

theorem local_finishJob (h : lib.Tame S) {oldState : WorkflowState} {el : Option Element} :
    Local S (finishJob lib S.ns job oldState el) := by
  refine deref_bind fun el _ => ?_
  refine wrap_bind (local_ofCall fun _ => h.outputVars) fun vars => ?_
  refine wrap_bind local_completeActivity fun _ => ?_
  refine wrap_bind (wrap local_recordHistory) fun _ => ?_
  exact wrap local_deleteJob

theorem local_completeJobProcessor (h : lib.Tame S) : Local S (completeJobProcessor lib S.ns
    job) := by
  refine option_bind (wrap (local_optional local_getProcessHistoryItem)) local_pure fun _ =>
    ?_
  refine option_bind (wrap (local_optional local_getProcessInstance)) local_pure fun pi => ?_
  refine andThen (local_engineErr local_getWorkflow) fun wf => ?_
  refine option_bind (wrap (local_optional local_getProcessHistoryItem)) local_pure fun
    activityStart => ?_
  refine andThen local_workfFlowStateFrom fun oldState => ?_
  exact local_finishJob h

/-- What it takes to destroy a process instance. -/
structure Destroys (w d : Loc → Prop) (p : Subject → Prop) : Prop where
  writes : ∀ ns key, w ⟨ns, .wfExecution, key⟩
  deletes : ∀ l, d l
  complete : p .executionComplete

theorem local_destroyProcessInstance (hd : Destroys S.writes S.deletes S.publishes) :
    Local S (destroyProcessInstance S.ns state processInstanceId executionId) := by
  have hwrite : S.mayWrite ⟨S.ns, .wfExecution, executionId⟩ := ⟨rfl, fun _ => hd.writes _ _⟩
  refine andThen (yields_nsKVs rfl) fun _ => ?_
  refine seq (yields_liftM (ensures_updateObjMsg (E := S.Fine) rfl (fun _ _ _ _ _ => hwrite)
    (.inl hwrite) nofun)) ?_
  rintro ⟨updated, e⟩ hupdated
  refine andThen (local_when fun _ => wrap (yields_delete ⟨rfl, fun _ => hd.deletes _⟩)) fun _ => ?_
  refine wrap_bind (local_ofExcept hupdated) fun _ => ?_
  refine wrap_bind (yields_delete ⟨rfl, fun _ => hd.deletes _⟩) fun _ => ?_
  refine wrap_bind (local_publishWorkflowState nofun nofun) fun _ => local_when fun _ => ?_
  exact wrap_bind (local_publishWorkflowState (fun _ => hd.complete) nofun) fun _ => local_pure

variable {els : GoMap Element}

theorem local_outboundOf : Local S (outboundOf els el) := by
  refine Yields.ite (fun _ => andThen (yields_mapOrder trivial) fun order => ?_) fun _ => local_pure
  split
  · exact yields_throw _ fine_workflowFatal_none
  · exact local_pure

variable {jobID : String}

theorem local_completeCaller (hj : S.publishes .jobLaunchComplete) :
    Local S (completeCaller S.ns state jobID) := by
  refine option_bind (wrap (local_optional local_getJob)) local_pure fun _ => ?_
  refine wrap_bind (local_publishWorkflowState (fun _ => hj) nofun) fun _ => ?_
  exact local_pure

variable {alive : Option ProcessInstance}

section

variable (hd : Destroys S.writes S.deletes S.publishes)
include hd

theorem local_destroyAlive {execution : Option Execution} :
    Local S (destroyAlive S.ns state alive execution) := by
  cases alive with
  | none => exact local_pure
  | some pi =>
    exact deref_bind fun _ _ =>
      wrap_bind (local_optional (local_destroyProcessInstance hd)) fun _ =>
        local_pure

theorem local_leaveCalledProcess (hj : S.publishes .jobLaunchComplete) :
    Local S (leaveCalledProcess S.ns state jobID alive) := by
  refine andThen (local_completeCaller hj) fun j => ?_
  refine wrap_bind (local_optional local_deleteJob) fun _ => ?_
  refine andThen (mapError (local_optional local_getExecution) fun _ _ => fine_text _)
    fun execution => ?_
  refine andThen (local_destroyAlive hd) fun _ => ?_
  refine deref_bind fun j _ => ?_
  refine wrap_bind (local_publishWorkflowState (fun _ => hj) nofun) fun _ => ?_
  exact local_pure

theorem local_leaveProcess (hj : S.publishes .jobLaunchComplete) :
    Local S (leaveProcess S.ns state alive) :=
  Yields.ite (fun _ => local_leaveCalledProcess hd hj) fun _ => local_pure

end

theorem local_logError : Local S (logError text) := yields_mark trivial

theorem local_traverseCompleted (h : lib.Tame S) (hd : Destroys S.writes S.deletes S.publishes)
    (hj : S.publishes .jobLaunchComplete) :
    Local S (traverseCompleted lib S.ns state outbound els alive) :=
  attempt_bind (local_traverse h) (fun _ => local_leaveProcess hd hj) fun _ he =>
    Yields.ite (fun _ => local_logError) fun _ => yields_throw _ (he.wrap _)

theorem local_recordedState {old : Option ProcessHistoryEntry} : Local S (recordedState old) := by
  cases old with
  | none => exact local_pure
  | some old => exact local_deref _

theorem local_activityCompleteProcessor (h : lib.Tame S)
    (hd : Destroys S.writes S.deletes S.publishes) (hj : S.publishes .jobLaunchComplete) :
    Local S (activityCompleteProcessor lib S.ns state) := by
  refine wrap_bind (local_optional local_getProcessHistoryItem) fun _ =>
    andThen local_recordedState fun _ =>
      Yields.ite (fun _ => local_pure) fun _ => ?_
  refine wrap_bind (local_optional local_getProcessInstance) fun alive =>
    wrap_bind local_getWorkflow fun _ => deref_bind fun _ _ =>
      andThen local_outboundOf fun _ => ?_
  cases alive with
  | none => exact local_leaveProcess hd hj
  | some pi => exact local_traverseCompleted h hd hj

/-! ### Compensation -/

theorem local_compensationStep {entry : ProcessHistoryEntry} :
    Local S (compensationStep S.ns els entry) := by
  refine Yields.ite (fun _ => local_pure) fun _ => deref_bind fun _ _ => ?_
  refine deref_bind fun _ _ => Yields.ite (fun _ => local_pure) fun _ => ?_
  exact deref_bind fun _ _ => attempt_bind (yields_kvGet rfl) (fun _ => local_pure)
    fun _ _ => Yields.ite (fun _ => local_pure) fun _ => local_pure

theorem local_getProcessHistory : Local S (getProcessHistory S.ns processInstanceId) := by
  refine andThen (yields_nsKVs rfl) fun _ => ?_
  refine wrap_bind (yields_keyPrefixSearch rfl) fun keys => ?_
  exact Yields.mapM fun _ => wrap (any (yields_loadObj (l := ⟨_, .wfHistory, _⟩) rfl))

theorem local_compensate : Local S (compensate S.ns state) := by
  refine wrap_bind (yields_kvsFor rfl) fun _ => ?_
  refine wrap_bind local_getWorkflow fun wf => ?_
  refine deref_bind fun pr _ => ?_
  refine wrap_bind (yields_createConsumer trivial) fun _ => ?_
  refine wrap_bind local_getProcessHistory fun history => ?_
  refine andThen (andThen (Yields.mapM fun _ => local_compensationStep) fun _ => local_pure)
    fun plan => ?_
  refine andThen (Yields.forM fun _ _ => wrap (local_publishMsg rfl nofun nofun)) fun _ =>
    ?_
  refine wrap_bind (local_publishWorkflowState nofun nofun) fun _ => ?_
  exact local_pure

theorem local_completeCompensatedProcess (h : lib.Tame S) :
    Local S (completeCompensatedProcess lib S.ns state el) := by
  refine local_when fun _ => ?_
  refine wrap_bind (local_ofCall fun _ => h.outputVars) fun _ => ?_
  refine wrap_bind (local_publishWorkflowState nofun nofun) fun _ => ?_
  exact local_pure

theorem local_finishCompensation (h : lib.Tame S) {id : TrackingID} :
    Local S (finishCompensation lib S.ns job id vars els) := by
  refine wrap_bind local_getProcessHistoryItem fun activity => ?_
  refine deref_bind fun elementId _ => ?_
  refine deref_bind fun el _ => ?_
  refine deref_bind fun elementName _ => ?_
  refine wrap_bind (local_publishWorkflowState nofun nofun) fun state => ?_
  refine wrap_bind local_recordHistoryActivityComplete fun _ => ?_
  exact local_completeCompensatedProcess h

theorem local_compensationJobComplete (h : lib.Tame S) :
    Local S (compensationJobComplete lib S.ns job) := by
  refine wrap_bind local_getProcessHistoryItem fun checkpoint => ?_
  refine wrap_bind local_getWorkflow fun wf => ?_
  refine deref_bind fun pr _ => ?_
  refine deref_bind fun el _ => ?_
  refine wrap_bind (local_ofCall fun _ => h.outputVars) fun vars => ?_
  refine deref_bind fun compensation _ => ?_
  refine Yields.ite (fun _ => ?_) fun _ => ?_
  · exact local_finishCompensation h
  · refine wrap_bind (local_publishWorkflowState nofun nofun) fun _ => ?_
    exact local_pure

/-! ### Starting activities -/

theorem allows_boundaryDue (h : lib.Tame S) (t : Int) (v : Value) :
    S.Allows (boundaryDue lib t v) := by
  unfold boundaryDue
  split
  · trivial
  · split
    · trivial
    · exact (h.shift _ t _ ‹_›).wrap _
  · trivial

variable {newState : WorkflowState}

theorem local_startBoundaryTimer (h : lib.Tame S) {i : Timer} :
    Local S (startBoundaryTimer lib S.ns newState vars i) := by
  refine wrap_bind (local_ofExcept (h.readVars vars)) fun v => ?_
  refine wrap_bind (local_ofExcept (h.evalAny _ _)) fun res => ?_
  refine andThen (yields_now trivial) fun t => ?_
  refine andThen (local_ofExcept (allows_boundaryDue h _ _)) fun due => ?_
  refine wrap_bind (local_publishWorkflowState nofun nofun) fun _ => ?_
  exact local_pure

theorem allows_catchEmbargo (t : Int) (v : Value) : S.Allows (catchEmbargo lib t v) := by
  unfold catchEmbargo
  split
  · split
    · trivial
    · split
      · trivial
      · exact fine_workflowFatal_none
  · trivial
  · exact fine_workflowFatal_none

theorem local_startTimerCatch (h : lib.Tame S) :
    Local S (startTimerCatch lib S.ns newState el vars) := by
  refine andThen (local_fatal (local_ofExcept (h.readVars vars))) fun varmap => ?_
  refine andThen (local_fatal (local_ofExcept (h.evalAny _ _))) fun ret => ?_
  refine andThen (yields_now trivial) fun t => ?_
  refine andThen (local_ofExcept (allows_catchEmbargo _ _)) fun embargo => ?_
  refine andThen (yields_newId trivial) fun id => ?_
  refine wrap_bind (local_publishWorkflowState nofun nofun) fun newState => ?_
  refine wrap_bind (local_publishWorkflowState nofun nofun) fun _ => ?_
  exact local_pure

theorem local_taskVersion : Local S (taskVersion S.ns el) := by
  unfold taskVersion
  split
  · exact local_pure
  · refine attempt_bind (wrap_bind (yields_loadFrom (b := .wfTaskSpecVer) rfl rfl) fun _ =>
      local_deref _) (fun _ => local_pure) fun _ _ => ?_
    exact Yields.ite (fun _ => yields_throw _ (fine_workflowFatal_none.wrap _)) fun _ => local_pure

theorem local_engineErrAt {el : Option Element} (hx : Local S x) : Local S (engineErrAt el x) :=
  attempt_bind hx (fun _ => local_pure) fun _ he =>
    deref_bind fun _ _ => yields_throw _ (he.wrap _)

variable {pi : ProcessInstance}

theorem local_startThrow : Local S (startThrow lib S.ns pi newState el vars) := by
  refine wrap_bind local_getWorkflow fun wf => ?_
  refine Yields.ite (fun _ => ?_) fun _ => ?_
  · exact local_engineErr (local_startJob ⟨rfl, nofun⟩)
  · exact yields_throw _ fine_workflowFatal_none

theorem local_startGateway : Local S (startGateway S.ns newState el) := by
  refine deref_bind fun gateway _ => ?_
  refine Yields.ite (fun _ => ?_) fun _ => ?_
  · refine wrap_bind (local_publishWorkflowState nofun nofun) fun _ => ?_
    exact local_pure
  · refine wrap_bind local_completeActivity fun _ => ?_
    exact local_pure

theorem local_startElement (h : lib.Tame S) :
    Local S (startElement lib S.ns pi newState el vars) := by
  unfold startElement
  split
  case h_1 =>
    exact wrap_bind (local_ofCall fun _ => h.outputVars) fun _ =>
      wrap_bind local_completeActivity fun _ => local_pure
  case h_2 => exact andThen local_startGateway fun _ => local_pure
  case h_3 =>
    exact andThen local_taskVersion fun _ => andThen (local_engineErr (local_startJob ⟨rfl, nofun⟩))
      fun _ => local_pure
  case h_6 => exact andThen local_startThrow fun _ => local_pure
  case h_9 => exact andThen (local_startTimerCatch h) fun _ => local_pure
  case h_11 => exact wrap_bind local_compensate fun _ => local_pure
  case h_10 | h_12 => exact wrap_bind local_completeActivity fun _ => local_pure
  all_goals exact andThen (local_engineErr (local_startJob ⟨rfl, nofun⟩)) fun _ => local_pure

variable {status : CancellationState}

theorem local_finalVars (h : lib.Tame S) :
    Local S (finalVars lib status vars el) := by
  refine Yields.ite (fun _ => ?_) fun _ => local_pure
  exact wrap (local_ofCall fun _ => h.outputVars)

theorem local_completeProcess (h : lib.Tame S) :
    Local S (completeProcess lib S.ns pi newState status el) := by
  refine local_when fun _ => ?_
  refine andThen (local_finalVars h) fun _ => ?_
  refine andThen (local_engineErr (local_publishWorkflowState nofun nofun)) fun _ => ?_
  exact local_pure

variable {traverseOnly : Bool}

theorem local_startedElement {el : Option Element} : Local S (startedElement traverseOnly el) := by
  refine Yields.ite (fun _ => ?_) fun _ => local_pure
  refine deref_bind fun _ _ => ?_
  exact local_pure

variable {traversal : WorkflowState}

theorem local_announceActivity {el : Option Element} :
    Local S (announceActivity S.ns traversal newState el) := by
  refine andThen (local_engineErrAt (local_publishWorkflowState nofun nofun)) fun newState => ?_
  refine andThen (local_engineErrAt (wrap local_recordHistory)) fun _ => ?_
  refine andThen (local_engineErrAt (local_publishWorkflowState nofun nofun)) fun _ => ?_
  exact local_pure

theorem local_activityStartProcessor (h : lib.Tame S) {newActivityID : String} :
    Local S (activityStartProcessor lib S.ns newActivityID traversal traverseOnly) := by
  refine option_bind (wrap (local_optional local_getProcessInstance)) local_pure fun pi => ?_
  refine andThen (local_engineErr local_getWorkflow) fun workflow => ?_
  refine andThen local_startedElement fun el => ?_
  refine andThen local_announceActivity fun newState => ?_
  refine deref_bind fun el _ => ?_
  refine andThen (Yields.forM fun _ _ => local_startBoundaryTimer h) fun _ => ?_
  refine andThen (local_startElement h) fun _ => ?_
  exact local_completeProcess h

end SharWorkflow
