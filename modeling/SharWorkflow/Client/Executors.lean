import SharWorkflow.Api.Endpoints
import SharWorkflow.Engine.Alone

/-!
# The executors of service tasks

The function of a service task is run by an executor: that of a client, or that of the server for
tasks that are mocked. A function that compensates for a job is handed the variables of that job,
the inputs with which it was started and the outputs with which it has completed. Both executors
take them from the history, but under different ids. The executor of a client looks for the job that
is compensated. The executor of the server looks for the job it is running.

* `mockOriginalVars`, `clientOriginalVars`: the variables that the two executors hand over.
* `World.originalVars`: what the history says about a job.
* `CompensatesFor`: a job that `processProcessCompensate` has created for a job of the history.
* `executorsAgree_iff`: **the executors agree** if and only if the history says the same about the
  two jobs. Just after the job was created it says nothing about its completion
  (`refund_disagree`).
-/

namespace SharWorkflow

open Concurrent World

/-! ### The executors -/

/-- The variables of a job that is compensated. -/
structure OriginalVars where
  inputs : Vars
  outputs : Vars

/-- The variables that the executor of `processMockServices` looks up for a compensation. -/
def mockOriginalVars (lib : Lib) (ns processInstanceId trackingID : String) : Act OriginalVars := do
  let ins ← Act.wrap "get input variables"
    (getCompensationInputVariables ns processInstanceId trackingID)
  let outs ← Act.wrap "get output variables"
    (getCompensationOutputVariables ns processInstanceId trackingID)
  let inputs ← Act.wrap "decode input variables" (Act.ofExcept (lib.decode ins))
  let outputs ← Act.wrap "decode output variables" (Act.ofExcept (lib.decode outs))
  return ⟨inputs, outputs⟩

/-- What the executor of `processMockServices` hands to the function of a job besides its inputs. -/
def mockHandsOver (lib : Lib) (ns trackingID : String) (job : WorkflowState) :
    Act (Option OriginalVars) :=
  if job.state = .compensating then do
    let vars ← mockOriginalVars lib ns job.processInstanceId trackingID
    return some vars
  else return none

/-- `getCompensationVariables` of a client. -/
def clientOriginalVars (lib : Lib) (a : Auth) (ns processInstanceId trackingId : String) :
    Act OriginalVars := do
  let ins ← Act.wrap "client error"
    (apiGetCompensationInputVariables a ns processInstanceId trackingId)
  let outs ← Act.wrap "client error"
    (apiGetCompensationOutputVariables a ns processInstanceId trackingId)
  let inputs ← Act.wrap "client error" (Act.ofExcept (lib.decode ins))
  let outputs ← Act.wrap "client error" (Act.ofExcept (lib.decode outs))
  return ⟨inputs, outputs⟩

/-- What the executor of a client hands to the function of a job besides its inputs. -/
def clientHandsOver (lib : Lib) (a : Auth) (ns : String) (job : WorkflowState) :
    Act (Option OriginalVars) :=
  if job.state = .compensating then do
    let compensation ← Act.deref job.compensation
    let vars ← Act.wrap "get compensation variables"
      (clientOriginalVars lib a ns job.processInstanceId compensation.forTrackingId)
    return some vars
  else return none

variable {lib : Lib} {a : Auth} {ns : String} {w w' : World} {X : Prop}

/-! ### What the history says -/

/-- The variables that the history has for a job: those of its start and those of its completion. -/
def World.originalVars (w : World) (lib : Lib) (ns processInstanceId trackingID : String) :
    Option OriginalVars := do
  let (exe : ProcessHistoryEntry) ← w.value (historyLoc ns processInstanceId trackingID .jobExecute)
  let (done : ProcessHistoryEntry) ←
    w.value (historyLoc ns processInstanceId trackingID .jobComplete)
  let inputs ← (lib.decode exe.vars).toOption
  let outputs ← (lib.decode done.vars).toOption
  return ⟨inputs, outputs⟩

/-- The program hands over the given variables. -/
def HandsOver (w : World) (x : Act (Option OriginalVars)) (vars : OriginalVars) : Prop :=
  Ends (env noFault) False (fun _ r => r = .ok (some vars)) w x.run

/-- **The executors agree** on a job that compensates for the job `o`: both hand over the variables
of `o`. -/
def ExecutorsAgree (lib : Lib) (a : Auth) (ns : String) (w : World) (o : String)
    (job : WorkflowState) : Prop :=
  ∃ vars, w.originalVars lib ns job.processInstanceId o = some vars ∧
    HandsOver w (mockHandsOver lib ns (TrackingID.ID job.id) job) vars ∧
    HandsOver w (clientHandsOver lib a ns job) vars

variable {pi tid : String} {Q : World → Except Err Bytes → Prop}

/-- The variables of a job are those of its entry in the history. -/
theorem ends_getHistoryVariables {historyType : ProcessHistoryType} :
    Ends (env noFault) X Q w (getHistoryVariables historyType ns pi tid).run ↔
      (w.value (historyLoc ns pi tid historyType) = none → Q w (.error
        (.wrap "get compensation history entry" (.wrap "get history entry"
          (.sentinel .keyNotFound))))) ∧
        ∀ entry : ProcessHistoryEntry, w.value (historyLoc ns pi tid historyType) = some entry →
          Q w (.ok entry.vars) := by
  rw [getHistoryVariables, ends_seq, ends_wrap, ends_getProcessHistoryItem]
  simp [mapError_ok, mapError_error]

variable {job : WorkflowState} {vars : OriginalVars}

theorem handsOver_mock_iff (hstate : job.state = .compensating) :
    HandsOver w (mockHandsOver lib ns tid job) vars ↔
      w.originalVars lib ns job.processInstanceId tid = some vars := by
  rw [HandsOver, mockHandsOver, if_pos hstate, World.originalVars]
  simp only [mockOriginalVars, getCompensationInputVariables, getCompensationOutputVariables,
    ends_seq, ends_wrap, ends_getHistoryVariables, ends_ofExcept, mapError_error]
  rcases w.value (historyLoc ns job.processInstanceId tid .jobExecute) with _ | exe
  · simp
  rcases w.value (historyLoc ns job.processInstanceId tid .jobComplete) with _ | done
  · simp
  rcases hins : lib.decode (ProcessHistoryEntry.vars exe) with _ | ins
  · simp [hins, Except.toOption]
  rcases houts : lib.decode (ProcessHistoryEntry.vars done) with _ | outs
  · simp [hins, houts, Except.toOption]
  · simp [hins, houts, Except.toOption]

/-- The server answers calls about the process instance: the instance is there, and the caller is
allowed to ask about its workflow. -/
def World.Serves (w : World) (a : Auth) (ns processInstanceId : String) : Prop :=
  ∃ pi : ProcessInstance, w.value ⟨ns, .wfProcessInstance, processInstanceId⟩ = some pi ∧
    a.grants pi.workflowName = true

theorem World.serves_iff_any : w.Serves a ns pi ↔ (w.value ⟨ns, .wfProcessInstance, pi⟩).any
      (fun pi : ProcessInstance => a.grants pi.workflowName) = true := by
  rw [Option.any_eq_true]
  rfl

theorem handsOver_client_iff {compensation : Compensation} (hstate : job.state = .compensating)
    (hcompensation : job.compensation = some compensation) :
    HandsOver w (clientHandsOver lib a ns job) vars ↔ w.Serves a ns job.processInstanceId ∧
        w.originalVars lib ns job.processInstanceId compensation.forTrackingId = some vars := by
  rw [HandsOver, clientHandsOver, if_pos hstate, hcompensation, World.originalVars, World.Serves]
  simp only [Act.deref_some, clientOriginalVars, apiGetCompensationInputVariables,
    apiGetCompensationOutputVariables, authFromProcessInstanceID, ends_seq, ends_wrap, ends_pure,
    getProcessInstance, ends_loadFor ⟨_, .wfProcessInstance, _⟩, ends_authorized,
    getCompensationInputVariables, getCompensationOutputVariables, ends_getHistoryVariables,
    ends_ofExcept, mapError_error, mapError_ok, noFault_iff, false_imp_iff, and_true]
  rcases w.value ⟨ns, .wfProcessInstance, job.processInstanceId⟩ with _ | pi
  · simp
  rcases hgrants : a.grants (ProcessInstance.workflowName pi) with _ | _
  · simp [hgrants]
  rcases w.value (historyLoc ns job.processInstanceId compensation.forTrackingId .jobExecute)
    with _ | exe
  · simp [hgrants]
  rcases w.value (historyLoc ns job.processInstanceId compensation.forTrackingId .jobComplete)
    with _ | done
  · simp [hgrants]
  rcases hins : lib.decode (ProcessHistoryEntry.vars exe) with _ | ins
  · simp [hgrants, hins, Except.toOption]
  rcases houts : lib.decode (ProcessHistoryEntry.vars done) with _ | outs
  · simp [hgrants, hins, houts, Except.toOption]
  · simp [hgrants, hins, houts, Except.toOption]

/-! ### The jobs of a compensation -/

/-- The job compensates for a job with the given history entry. -/
structure CompensationOf (state : WorkflowState) (jobExe : ProcessHistoryEntry)
    (job : WorkflowState) : Prop where
  compensating : job.state = .compensating
  processInstanceId : job.processInstanceId = state.processInstanceId
  compensation : ∃ step steps, job.compensation = some ⟨step, steps, TrackingID.ID jobExe.id⟩

/-- What a step of a plan does to jobs and to the history: a new job compensates for the job of the
step, and no job is recorded as complete. -/
structure Compensated (ns : String) (state : WorkflowState) (jobExe : ProcessHistoryEntry)
    (w w' : World) : Prop where
  jobs : ∀ id, ∀ job : WorkflowState, w'.value ⟨ns, .job, id⟩ = some job →
    w.value ⟨ns, .job, id⟩ = some job ∨ w.FreshId id ∧ CompensationOf state jobExe job
  history : ∀ pi tid, w'.value (historyLoc ns pi tid .jobComplete) =
    w.value (historyLoc ns pi tid .jobComplete)

/-- The last digit of a history key is that of its kind. -/
theorem getLast_historyKey (pi tid : String) (historyType : ProcessHistoryType) :
    (historyKey pi tid historyType).toList.getLast? =
      (toString historyType.number).toList.getLast? := by
  have hdigits : (toString historyType.number).toList ≠ [] := by cases historyType <;> decide
  rw [historyKey, String.toList_append, List.getLast?_append_of_ne_nil _ hdigits]

variable {t : ProcessHistoryType}

theorem historyLoc_ne {pi' tid' : String} {t' : ProcessHistoryType}
    (h : (toString t.number).toList.getLast? ≠ (toString t'.number).toList.getLast?) :
    historyLoc ns pi tid t ≠ historyLoc ns pi' tid' t' := by
  intro heq
  have hkey : historyKey pi tid t = historyKey pi' tid' t' := by injection heq
  rw [← getLast_historyKey pi tid, ← getLast_historyKey pi' tid', hkey] at h
  exact h rfl

variable {state : WorkflowState} {jobExe : ProcessHistoryEntry}

theorem Compensated.refl : Compensated ns state jobExe w w := ⟨fun _ _ h => .inl h, fun _ _ => rfl⟩

theorem Compensated.trans {w'' : World} (h : Compensated ns state jobExe w w')
    (hids : w'.ids = w.ids) (h' : Compensated ns state jobExe w' w'') :
    Compensated ns state jobExe w w'' where
  jobs id job hjob := by
    rcases h'.jobs id job hjob with hold | ⟨hfresh, hnew⟩
    · exact h.jobs id job hold
    · exact .inr ⟨by rwa [World.FreshId, hids] at hfresh, hnew⟩
  history pi tid := (h'.history pi tid).trans (h.history pi tid)

/-- An entry of the history that completes no job. -/
theorem Compensated.record {entry : ProcessHistoryEntry}
    (ht : (toString ProcessHistoryType.jobComplete.number).toList.getLast? ≠
      (toString t.number).toList.getLast?) :
    Compensated ns state jobExe w (w.put (historyLoc ns pi tid t) entry) where
  jobs id job hjob := .inl (by rwa [put_value_of_ne w _ (by simp)] at hjob)
  history pi' tid' := put_value_of_ne w _ (historyLoc_ne ht)

variable {id : String}

/-- A new job is stored. -/
theorem Compensated.create (hfresh : w.FreshId id) (hjob : CompensationOf state jobExe job) :
    Compensated ns state jobExe w ((w.issue id).put ⟨ns, .job, id⟩ job) where
  jobs id' job' hjob' := by
    by_cases hid : id' = id
    · subst hid
      rw [put_value_self] at hjob'
      obtain rfl := Option.some.inj hjob'
      exact .inr ⟨hfresh, hjob⟩
    · rw [put_value_of_ne _ _ (by simpa using hid)] at hjob'
      exact .inl hjob'
  history pi tid := put_value_of_ne _ _ (by simp)

/-- A new job is announced. -/
theorem ends_announceJob_compensated {subject : Subject} {w₀ : World}
    (hsubject : subject ≠ .jobUserTaskExecute) (h : Compensated ns state jobExe w₀ w) :
    Ends (env noFault) True (fun w' _ => Compensated ns state jobExe w₀ w') w
      (announceJob ns subject job).run := by
  rw [announceJob, ends_seq, ends_wrap, ends_publishWorkflowState hsubject]
  refine fun t => ⟨?_, nofun⟩
  simp only [mapError_ok, recordHistoryJobExecute, recordHistory, ends_wrap, ends_seq, ends_nsKVs,
    ends_mapError, ends_saveObj, noFault_iff, false_imp_iff, and_true]
  refine ⟨fun id job' hjob' => h.jobs id job' ?_, fun pi tid => ?_⟩
  · rwa [put_value_of_ne _ _ (by simp)] at hjob'
  · rw [put_value_of_ne _ _ (historyLoc_ne (by decide))]
    exact h.history pi tid

/-- A service task is started as a new job. -/
theorem ends_startJob_compensated {uid : String} {el : Element}
    {v : Bytes} (hel : el.type = .serviceTask) (hjob : CompensationOf state jobExe job) :
    Ends (env noFault) True (fun w' _ => Compensated ns state jobExe w w') w
      (startJob lib ns (.jobServiceTaskExecute uid) job el v).run := by
  rw [startJob, ends_seq, ends_ofExcept]
  split
  swap
  · exact .refl
  rw [ends_seq, jobOwners, if_neg (by simp [hel])]
  refine ends_pure.2 (ends_seq.2 ?_)
  rw [jobSubject, if_pos hel]
  refine ends_seq.2 (ends_deref.2 ⟨fun _ => trivial, fun version _ => ends_seq.2 (ends_wrap.2
    ((ends_loadFrom ⟨_, .wfTaskSpec, _⟩).2 ⟨fun _ => .refl, fun spec _ => ?_⟩))⟩)
  -- the subject is that of a service task, mocked or not
  have hrest (uid' : String) (job' : WorkflowState) (hjob' : CompensationOf state jobExe job') :
      Ends (env noFault) True (fun w' _ => Compensated ns state jobExe w w') w
        (Act.wrap "create job" (createJob ns job') >>= fun job => Act.when (el.iteration = false)
          (announceJob ns (.jobServiceTaskExecute uid') job)).run := by
    simp only [ends_seq, ends_wrap, createJob, ends_nsKVs, ends_newId, ends_saveObj, ends_pure,
      mapError_ok, ends_when, noFault_iff, false_imp_iff, and_true]
    intro id hfresh
    have hcreated : Compensated ns state jobExe w ((w.issue id).put ⟨ns, .job, id⟩
        ({ job' with id := TrackingID.push job'.id id } : WorkflowState)) :=
      .create hfresh ⟨hjob'.1, hjob'.2, hjob'.3⟩
    exact ⟨fun _ => ends_announceJob_compensated (by simp) hcreated, fun _ => hcreated⟩
  refine ends_run_ite.2 ⟨fun _ => ends_pure.2 (hrest _ _ ?_), fun _ => ends_pure.2 (hrest _ _ ?_)⟩
  · exact ⟨hjob.1, hjob.2, hjob.3⟩
  · exact ⟨hjob.1, hjob.2, hjob.3⟩

theorem ends_compensateFor {els : GoMap Element} {entry : PlanEntry} :
    Ends (env noFault) True (fun w' _ => Compensated ns state jobExe w w') w
      (compensateFor lib ns state els entry jobExe).run := by
  rw [compensateFor, ends_seq]
  refine ends_deref.2 ⟨fun _ => trivial, fun el _ => ends_seq.2 (ends_deref.2
    ⟨fun _ => trivial, fun workflowId _ => ends_seq.2 (ends_now.2 fun time => ?_)⟩)⟩
  simp only [recordHistoryCompensationCheckpoint, recordHistory, ends_seq, ends_wrap, ends_nsKVs,
    ends_mapError, ends_saveObj, noFault_iff, false_imp_iff, and_true, mapError_ok, ends_when]
  refine ⟨fun hel => ?_, fun _ => .record (by decide)⟩
  have hjob : CompensationOf state jobExe (compensationJob state jobExe workflowId el entry time) :=
    ⟨rfl, rfl, _, _, rfl⟩
  refine (ends_startJob_compensated hel hjob).mono fun w' r h => ?_
  exact Compensated.trans (.record (by decide)) rfl h

/-- The next entry of the plan of a compensation. -/
def World.planStep (w : World) (ns : String) (state : WorkflowState)
    (jobExe : ProcessHistoryEntry) : Prop :=
  ∃ entry, w.nextEntry ("comp_plan_" ++ TrackingID.ID state.id)
      (.compensate (TrackingID.ID state.id)) = .ok (some entry) ∧
    w.value ⟨ns, .wfHistory, entry.item⟩ = some jobExe

/-- `GetWorkflow` leaves everything but the cache as it is. -/
theorem ends_getWorkflow_any {Q : World → Except Err Workflow → Prop}
    (h : ∀ c r, Q (w.withCache c) r) :
    Ends (env noFault) X Q w (getWorkflow ns id).run := by
  have hsame (r : Except Err Workflow) : Q w r := h w.cache r
  refine ends_getWorkflow.2 ⟨fun wf _ => hsame _, (ends_loadFor ⟨ns, .wf, id⟩).2 ?_⟩
  simp [h, hsame]

variable {durable : String}

theorem ends_fetchEntry {filter : Subject} {Q : World → Except Err (Option PlanEntry) → Prop} :
    Ends (env noFault) X Q w (fetchEntry durable filter).run ↔
      Q w (w.nextEntry durable filter) := by
  refine (ends_perform (o := .fetch durable filter) nofun).trans ⟨fun h => h _ _ ⟨rfl, .inl rfl⟩,
    ?_⟩
  rintro h r w' ⟨rfl, rfl | ⟨hF, -⟩⟩
  · exact h
  · exact hF.elim

theorem ends_ackPlanEntry {Q : World → Except Err Unit → Prop} :
    Ends (env noFault) X Q w (ackPlanEntry durable).run ↔
      Q (w.ackEntry durable) (.ok ()) := by
  refine (ends_perform (o := .ackEntry durable) nofun).trans ⟨fun h => h _ _ (.inl ⟨rfl, rfl⟩), ?_⟩
  rintro h r w' (⟨rfl, rfl⟩ | ⟨-, hF, -⟩)
  · exact h
  · exact hF.elim

/-- A job that is new after a step compensates for the job of the step, and nothing is recorded as
complete. -/
theorem ends_processProcessCompensate (w : World) : Ends (env noFault) True (fun w' _ =>
      (∃ jobExe, w.planStep ns state jobExe ∧ Compensated ns state jobExe w w') ∨
        ∀ l, w'.value l = w.value l) w (processProcessCompensate lib ns state).run := by
  refine ends_seq.2 (ends_acking.2 (ends_wrap.2 (ends_getWorkflow_any fun c r => ?_)))
  cases r with
  | error e => exact .inr fun l => rfl
  | ok wf =>
  refine ends_seq.2 (ends_acking.2 (ends_deref.2 ⟨fun _ => trivial, fun pr _ => ?_⟩))
  refine ends_seq.2 (ends_acking.2 (ends_wrap.2 (ends_fetchEntry.2 ?_)))
  rcases hnext : (w.withCache c).nextEntry ("comp_plan_" ++ TrackingID.ID state.id)
    (.compensate (TrackingID.ID state.id)) with e | fetched
  · exact .inr fun l => rfl
  refine ends_seq.2 (ends_acking.2 (ends_deref.2 ⟨fun _ => trivial, ?_⟩))
  rintro entry rfl
  refine ends_seq.2 (ends_acking.2 (ends_wrap.2 (ends_ackPlanEntry.2 ?_)))
  refine ends_seq.2 (ends_acking.2 (ends_wrap.2 (ends_kvsFor.2 ⟨?_, nofun⟩)))
  refine ends_seq.2
    (ends_acking.2 (ends_wrap.2 (ends_kvGet.2 ⟨fun _ => ?_, fun v hv _ _ => ?_, nofun⟩)))
  · exact .inr fun l => rfl
  refine ends_seq.2 (ends_acking.2 (ends_compensateFor.mono fun w' r h => ?_))
  have hstep : (∃ jobExe, w.planStep ns state jobExe ∧ Compensated ns state jobExe w w') :=
    ⟨v, ⟨entry, hnext, hv⟩, ⟨h.jobs, h.history⟩⟩
  cases r with
  | ok _ => exact ends_pure.2 (.inl hstep)
  | error e => exact .inl hstep

/-- A compensation for the job of the history entry has created `job`: the job is there after the
step of the plan was handled, and was not there before. -/
structure CompensatesFor (lib : Lib) (ns : String) (state : WorkflowState) (w w' : World)
    (jobExe : ProcessHistoryEntry) (job : WorkflowState) : Prop where
  step : w.planStep ns state jobExe
  handled : ∃ r, Exec (env noFault) w (processProcessCompensate lib ns state).run w' r
  created : w'.value ⟨ns, .job, TrackingID.ID job.id⟩ = some job
  new : w.value ⟨ns, .job, TrackingID.ID job.id⟩ ≠ some job

theorem World.planStep.unique {jobExe' : ProcessHistoryEntry} (h : w.planStep ns state jobExe)
    (h' : w.planStep ns state jobExe') : jobExe = jobExe' := by
  obtain ⟨entry, hentry, hvalue⟩ := h
  obtain ⟨entry', hentry', hvalue'⟩ := h'
  obtain rfl : entry = entry' := by simpa using hentry.symm.trans hentry'
  exact Option.mem_unique hvalue hvalue'

theorem CompensatesFor.compensated
    (h : CompensatesFor lib ns state w w' jobExe job) : Compensated ns state jobExe w w' := by
  obtain ⟨r, hexec⟩ := h.handled
  rcases (ends_processProcessCompensate w).exec hexec with ⟨jobExe', hstep, hcompensated⟩ | hsame
  · rwa [h.step.unique hstep]
  · exact ⟨fun id job hjob => .inl (hsame _ ▸ hjob), fun pi tid => hsame _⟩

theorem CompensatesFor.compensationOf (h : CompensatesFor lib ns state w w' jobExe job) :
    w.FreshId (TrackingID.ID job.id) ∧ CompensationOf state jobExe job :=
  (h.compensated.jobs _ job h.created).resolve_left h.new

/-- **The executors agree exactly if the history says the same about both jobs**: about the job that
is compensated, and about the one that compensates for it. -/
theorem executorsAgree_iff {w₀ w₁ : World} {job : WorkflowState}
    (h : CompensatesFor lib ns state w₀ w₁ jobExe job) (a : Auth) (w : World) :
    ExecutorsAgree lib a ns w (TrackingID.ID jobExe.id) job ↔ w.Serves a ns job.processInstanceId ∧
        ∃ vars, w.originalVars lib ns job.processInstanceId (TrackingID.ID jobExe.id) = some vars ∧
          w.originalVars lib ns job.processInstanceId (TrackingID.ID job.id) = some vars := by
  obtain ⟨hstate, -, step, steps, hcompensation⟩ := h.compensationOf.2
  simp only [ExecutorsAgree, handsOver_mock_iff hstate, handsOver_client_iff hstate hcompensation]
  constructor
  · rintro ⟨vars, hvars, hmock, hserves, -⟩
    exact ⟨hserves, vars, hvars, hmock⟩
  · rintro ⟨hserves, vars, hvars, hmock⟩
    exact ⟨vars, hvars, hmock, hserves, hvars⟩

/-! ### A refund -/

/-- A charge that is compensated by a refund, which is mocked. -/
def refundWorkflow : Workflow where
  name := "order"
  process := AList.singleton "process"
    { id := "process"
      elements := [
        { id := "charge", type := .serviceTask, version := some "charge-uid",
          compensateWith := some "refund" },
        { id := "refund", type := .serviceTask, version := some "refund-uid",
          inputTransform := AList.singleton "a" "a" }] }

/-- The variables of the charge: it is started with `a`, and is completed with `a` and `b`. -/
def chargeVars : OriginalVars where
  inputs := some (AList.insert "a" (.bool true) ∅)
  outputs := some (AList.insert "b" (.bool false) (AList.insert "a" (.bool true) ∅))

/-- The code of the variables of the charge. -/
def chargeCode (historyType : ProcessHistoryType) : Bytes :=
  if historyType = .jobExecute then [0x80, 2, 0] else [0x80, 2, 1]

/-- The history entry of the charge, at its start and at its completion. -/
def chargeEntry (historyType : ProcessHistoryType) : ProcessHistoryEntry where
  itemType := historyType
  workflowId := some "workflow"
  executionId := some "execution"
  elementId := some "charge"
  processInstanceId := some "instance"
  vars := chargeCode historyType
  id := ["execution", "instance", "activity", "job"]

/-- The state of the end event that orders the compensation. -/
def refundState : WorkflowState where
  workflowId := "workflow"
  executionId := "execution"
  id := ["execution", "instance", "end"]
  processId := "process"
  processInstanceId := "instance"
  vars := [0x80, 2, 0]
  state := .compensating

/-- The charge has completed, and its compensation is planned. -/
def refundWorld : World :=
  let w : World := {
    log := [⟨"default", .compensate "end",
      .planEntry 0 1 (historyKey "instance" "job" .jobExecute), 0⟩]
    consumers := fun durable => if durable = "comp_plan_end" then some 0 else none }
  ((((w.put ⟨"default", .wf, "workflow"⟩ refundWorkflow).put
    ⟨"default", .wfTaskSpec, "refund-uid"⟩ ({ behaviour := some { mock := true } } : TaskSpec)).put
    ⟨"default", .wfProcessInstance, "instance"⟩ ({ workflowName := "order" } : ProcessInstance)).put
    (historyLoc "default" "instance" "job" .jobExecute) (chargeEntry .jobExecute)).put
    (historyLoc "default" "instance" "job" .jobComplete) (chargeEntry .jobComplete)

/-- The history has the variables of the charge for a job. -/
def World.recordsCharge (w : World) (tid : String) (historyType : ProcessHistoryType) : Bool :=
  (w.value (historyLoc "default" "instance" tid historyType)).any
    fun entry : ProcessHistoryEntry => entry.vars = chargeCode historyType

theorem World.originalVars_charge (hexe : w.recordsCharge tid .jobExecute = true)
    (hdone : w.recordsCharge tid .jobComplete = true) :
    w.originalVars boolLib "default" "instance" tid = some chargeVars := by
  obtain ⟨exe, hexe, hinputs⟩ := (Option.any_eq_true _ _).1 hexe
  obtain ⟨done, hdone, houtputs⟩ := (Option.any_eq_true _ _).1 hdone
  rw [World.originalVars, hexe, hdone]
  dsimp only [Option.bind_eq_bind, Option.bind_some]
  rw [of_decide_eq_true hinputs, of_decide_eq_true houtputs]
  rfl

/-- A caller who may ask about everything. -/
def clerk : Auth where
  apiFunc := ""
  authN := some "clerk"
  authZ := some fun _ _ => true

/-- The refund is created with the first of the ids. -/
theorem refund_created : ∃ w job, CompensatesFor boolLib "default" refundState refundWorld w
    (chargeEntry .jobExecute) job ∧ TrackingID.ID job.id = "id0" ∧
    job.processInstanceId = "instance" ∧ w.Serves clerk "default" "instance" ∧
    w.recordsCharge "id0" .jobExecute = true ∧
    w.value (historyLoc "default" "instance" "id0" .jobComplete) = none ∧
    w.originalVars boolLib "default" "instance" "job" = some chargeVars := by
  obtain ⟨w, r, hexec, htest⟩ := exists_exec_of_reaches noFault refundWorld
    (processProcessCompensate boolLib "default" refundState).run
    (List.replicate 20 .ok)
    (fun w _ => (w.value ⟨"default", .job, "id0"⟩).any (fun job : WorkflowState =>
        TrackingID.ID job.id == "id0" && job.processInstanceId == "instance") &&
      (w.value ⟨"default", .wfProcessInstance, "instance"⟩).any (fun pi : ProcessInstance =>
        clerk.grants pi.workflowName) &&
      w.recordsCharge "id0" .jobExecute &&
      (w.value (historyLoc "default" "instance" "id0" .jobComplete)).isNone &&
      w.recordsCharge "job" .jobExecute && w.recordsCharge "job" .jobComplete)
    (by decide +kernel)
  simp only [Bool.and_eq_true] at htest
  obtain ⟨⟨⟨⟨⟨hany, hserves⟩, hexe⟩, hdone⟩, hcharge⟩, hcharged⟩ := htest
  obtain ⟨job, hjob, hid⟩ := (Option.any_eq_true _ _).1 hany
  simp only [Bool.and_eq_true, beq_iff_eq] at hid
  refine ⟨w, job, ⟨⟨_, rfl, rfl⟩, ⟨r, hexec⟩, hid.1 ▸ hjob, ?_⟩, hid.1, hid.2,
    serves_iff_any.2 hserves, hexe, Option.isNone_iff_eq_none.1 hdone,
    originalVars_charge hcharge hcharged⟩
  rw [hid.1]
  exact nofun

/-- **The executors disagree** on the refund as soon as it is created: that of a client hands over
the variables of the charge, and that of the server none. -/
theorem refund_disagree : ∃ w job, CompensatesFor boolLib "default" refundState refundWorld w
    (chargeEntry .jobExecute) job ∧
    HandsOver w (clientHandsOver boolLib clerk "default" job) chargeVars ∧ ¬ ∃ vars, HandsOver w
      (mockHandsOver boolLib "default" (TrackingID.ID job.id) job) vars := by
  obtain ⟨w, job, hjob, hid, hpi, hserves, -, hdone, horiginal⟩ := refund_created
  obtain ⟨hstate, -, step, steps, hcompensation⟩ := hjob.compensationOf.2
  refine ⟨w, job, hjob, ?_, ?_⟩
  · rw [handsOver_client_iff hstate hcompensation, hpi]
    exact ⟨hserves, horiginal⟩
  · rintro ⟨vars, hmock⟩
    rw [handsOver_mock_iff hstate, hid, hpi, World.originalVars, hdone] at hmock
    simp at hmock

/-- Once the refund is recorded as complete too, with the same variables, the executors agree. -/
theorem refund_agree : ∃ w₁ w job, CompensatesFor boolLib "default" refundState refundWorld w₁
    (chargeEntry .jobExecute) job ∧
    w.originalVars boolLib "default" "instance" "job" = some chargeVars ∧
    ExecutorsAgree boolLib clerk "default" w (TrackingID.ID (chargeEntry .jobExecute).id) job := by
  obtain ⟨w, job, hjob, hid, hpi, hserves, hexe, hdone, horiginal⟩ := refund_created
  set done := historyLoc "default" "instance" "id0" .jobComplete with hloc
  have hcharge : done ≠ historyLoc "default" "instance" "job" .jobComplete := by decide
  have hkept : ∀ tid, (w.put done (chargeEntry .jobComplete)).value
      (historyLoc "default" "instance" tid .jobExecute) =
        w.value (historyLoc "default" "instance" tid .jobExecute) := fun tid =>
    put_value_of_ne w _ (historyLoc_ne (by decide))
  have hagain : (w.put done (chargeEntry .jobComplete)).originalVars boolLib "default"
      "instance" "job" = some chargeVars := by
    rw [← horiginal, World.originalVars, World.originalVars, hkept,
      put_value_of_ne w _ hcharge.symm]
  refine ⟨w, w.put done (chargeEntry .jobComplete), job, hjob, hagain,
    (executorsAgree_iff hjob clerk _).2 ⟨?_, chargeVars, ?_, ?_⟩⟩
  · rwa [hpi, World.Serves, put_value_of_ne w _ (by decide)]
  · rwa [hpi]
  · rw [hpi, hid]
    refine originalVars_charge ?_ ?_
    · rwa [World.recordsCharge, hkept]
    · rw [World.recordsCharge, put_value_self]
      rfl

end SharWorkflow
