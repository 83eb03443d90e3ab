import SharWorkflow.Engine.Alone
import SharWorkflow.Engine.Executions

/-!
# Retries

A job that has failed for good with the strategy to pause is kept in the store until somebody
retries it. Its record has a key of five parts (`fatalErrorKey`): the name and the id of the
workflow, the execution, the process instance and the element. The job itself is not a part of it.
Two jobs of one element in one process instance share a record, and so do jobs whose parts come to
the same text: the later record takes the place of the earlier one, a retry of either job is a retry
of the later one, and so is the deletion.

* `persistAll`: the records of any number of failed jobs are written, in any order.
* `persisted_value`: **the last job of a key** is what is found there.
* `retries_iff`: every job can be retried and forgotten on its own, exactly if no two of them have
  the same key.
-/

namespace SharWorkflow

open Concurrent World

variable {X : Prop} {w : World} {ns : String} {jobs : List WorkflowState} {job : WorkflowState}

/-- Where the record of a failed job is stored. -/
abbrev fatalErrorLoc (ns : String) (job : WorkflowState) : Loc :=
  ⟨ns, .wfFatalError, fatalErrorKey job⟩

/-- The record of a job that is paused. -/
abbrev pausedError (job : WorkflowState) : FatalError :=
  { handlingStrategy := .pause, workflowState := job }

/-- Jobs fail one after the other. -/
def persistAll (ns : String) (jobs : List WorkflowState) : Handler PUnit :=
  jobs.forM fun job => do
    let _ ← processFatalError ns (pausedError job)

/-- The world with the records of the jobs. -/
def World.persisted (ns : String) (w : World) (jobs : List WorkflowState) : World :=
  jobs.foldl (fun w job => w.put (fatalErrorLoc ns job) (pausedError job)) w

theorem ends_persistAll {Q : World → Except (Bool × Err) PUnit → Prop} :
    Ends (env noFault) X Q w (persistAll ns jobs).run ↔
      Q (w.persisted ns jobs) (.ok ⟨⟩) := by
  induction jobs generalizing w with
  | nil => exact ends_pure
  | cons job jobs ih =>
    have hput := ih (w := w.put (fatalErrorLoc ns job) (pausedError job))
    refine ends_seq.trans ?_
    simp only [processFatalError, persistFatalError, ends_seq, ends_acking, ends_wrap, ends_kvsFor,
      ends_saveObj, ends_pure, mapError_ok, noFault_iff, false_imp_iff, and_true]
    exact hput

/-- **The last job of a key** is what is found under it. -/
theorem persisted_value (ns : String) (w : World) {key : String}
    (hjob : ∃ job ∈ jobs, fatalErrorKey job = key) : ∃ last ∈ jobs, fatalErrorKey last = key ∧
      (w.persisted ns jobs).value ⟨ns, .wfFatalError, key⟩ = some (pausedError last) := by
  induction jobs using List.reverseRecOn with
  | nil => exact absurd hjob (by simp)
  | append_singleton jobs last ih =>
    rw [World.persisted, List.foldl_append]
    by_cases hkey : fatalErrorKey last = key
    · subst hkey
      exact ⟨last, by simp, rfl, put_value_self _ (fatalErrorLoc ns last) _⟩
    · obtain ⟨job, hmem, hjobkey⟩ := hjob
      have hjob : job ∈ jobs := by
        rcases List.mem_append.1 hmem with h | h
        · exact h
        · exact absurd (List.mem_singleton.1 h ▸ hjobkey) hkey
      obtain ⟨last', hlast', hkey', hvalue⟩ := ih ⟨job, hjob, hjobkey⟩
      have hne : (⟨ns, .wfFatalError, key⟩ : Loc) ≠ fatalErrorLoc ns last := fun h =>
        hkey (congrArg Loc.key h).symm
      exact ⟨last', by simp [hlast'], hkey', (put_value_of_ne _ _ hne).trans hvalue⟩

/-- A job of the given id is retried. -/
def Retried (ns : String) (id : TrackingID) (w w' : World) : Prop :=
  ∃ retry : WorkflowState, retry.id = id ∧
    w'.log = ⟨ns, .jobRetry, .state retry, 0⟩ :: w.log

theorem Retried.unique {id id' : TrackingID} {w' : World} (h : Retried ns id w w')
    (h' : Retried ns id' w w') : id = id' := by
  obtain ⟨retry, hid, hlog⟩ := h
  obtain ⟨retry', hid', hlog'⟩ := h'
  have heq : retry = retry' := by simpa [hlog] using hlog'
  rw [← hid, heq, hid']

/-- A retry publishes the record of the key. -/
theorem ends_retryActivity {Q : World → Except Err Unit → Prop} {failed : FatalError}
    (hvalue : w.value (fatalErrorLoc ns job) = some failed)
    (hQ : ∀ w', Retried ns failed.workflowState.id w w' → Q w' (.ok ())) :
    Ends (env noFault) X Q w (retryActivity ns job).run := by
  have hpublish : Subject.jobRetry ≠ .jobUserTaskExecute := nofun
  refine ends_seq.2 (ends_wrap.2 (ends_kvsFor.2 ⟨?_, nofun⟩))
  refine ends_seq.2 (ends_wrap.2 (ends_loadObj.2 ⟨fun hnone => ?_, fun v hv => ?_, nofun⟩))
  · rw [hvalue] at hnone
    cases hnone
  · obtain rfl : failed = v := Option.mem_unique hvalue hv
    refine ends_seq.2 (ends_wrap.2 ((ends_publishWorkflowState hpublish).2 fun t => ⟨?_, nofun⟩))
    exact ends_pure.2 (hQ _ ⟨{ failed.workflowState with vars := job.vars }.stamped t, rfl, rfl⟩)

/-- **The jobs are kept apart**: a retry of a job is one of this job, and the deletion of its record
leaves the records of the others. -/
structure KeptApart (ns : String) (jobs : List WorkflowState) (w : World) : Prop where
  retried : ∀ job ∈ jobs, Ends (env noFault) False
    (fun w' r => r = .ok () ∧ Retried ns job.id w w') w (retryActivity ns job).run
  forgotten : ∀ job ∈ jobs, Ends (env noFault) False
    (fun w' r => r = .ok () ∧ ∀ other ∈ jobs, other.id ≠ job.id →
      w'.value (fatalErrorLoc ns other) = w.value (fatalErrorLoc ns other)) w
    (deleteFatalError ns job).run

/-- **Retries.** Whatever was in the store before, the failed jobs are kept apart exactly if those
with different ids have different keys. -/
theorem retries_iff :
    Ends (env noFault) False (fun w' r => r = .ok ⟨⟩ ∧ KeptApart ns jobs w') w
        (persistAll ns jobs).run ↔
      ∀ job ∈ jobs, ∀ other ∈ jobs, fatalErrorKey job = fatalErrorKey other →
        job.id = other.id := by
  rw [ends_persistAll]
  constructor
  · -- the retries of two jobs of one key are retries of the same job
    rintro ⟨-, hapart⟩ job hjob other hother hkey
    obtain ⟨last, -, -, hvalue⟩ := persisted_value ns w ⟨job, hjob, rfl⟩
    have hsame (job' : WorkflowState) (hjob' : job' ∈ jobs)
        (hkey' : fatalErrorKey job' = fatalErrorKey job) : job'.id = last.id := by
      obtain ⟨w', r, hexec, -, hretried⟩ := (hapart.retried job' hjob').can
      have hvalue' : (w.persisted ns jobs).value (fatalErrorLoc ns job') =
          some (pausedError last) := by
        unfold fatalErrorLoc
        rw [hkey']
        exact hvalue
      have hlast : Ends (env noFault) False (fun w' _ =>
          Retried ns last.id (w.persisted ns jobs) w') _ (retryActivity ns job').run :=
        ends_retryActivity hvalue' fun _ h => h
      exact hretried.unique (hlast.exec hexec)
    rw [hsame job hjob rfl, hsame other hother hkey.symm]
  · intro hids
    refine ⟨rfl, fun job hjob => ?_, fun job hjob => ?_⟩
    · obtain ⟨last, hlast, hkey, hvalue⟩ := persisted_value ns w ⟨job, hjob, rfl⟩
      refine ends_retryActivity hvalue fun w' hretried => ⟨rfl, ?_⟩
      rwa [← hids last hlast job hjob hkey]
    · refine ends_seq.2 (ends_wrap.2 (ends_kvsFor.2 ⟨?_, nofun⟩))
      refine ends_wrap.2 (ends_delete.2 ⟨⟨rfl, fun other hother hid => ?_⟩, nofun⟩)
      have hne : fatalErrorLoc ns other ≠ fatalErrorLoc ns job := by
        intro h
        exact hid (hids other hother job hjob (congrArg Loc.key h))
      exact World.clear_value_of_ne _ hne

/-- A job of the element `charge`. -/
def failedJob (id : String) : WorkflowState where
  workflowName := "orders"
  workflowId := "workflow"
  executionId := "execution"
  processInstanceId := "instance"
  elementId := "charge"
  id := ["instance", id]

/-- Two jobs of the element fail in one process instance. -/
def failedJobs : List WorkflowState := [failedJob "one", failedJob "two"]

/-- **A job that cannot be retried.** A retry of the first job starts the second one. -/
theorem retry_of_another_job :
    ∃ w', Exec (env noFault) (({} : World).persisted "default" failedJobs)
        (retryActivity "default" (failedJob "one")).run w' (.ok ()) ∧
      Retried "default" (failedJob "two").id (({} : World).persisted "default" failedJobs) w' ∧
      (failedJob "two").id ≠ (failedJob "one").id ∧ ¬ Ends (env noFault) False
        (fun w' r => r = .ok ⟨⟩ ∧ KeptApart "default" failedJobs w') {}
        (persistAll "default" failedJobs).run := by
  have hvalue : (({} : World).persisted "default" failedJobs).value
      (fatalErrorLoc "default" (failedJob "one")) = some (pausedError (failedJob "two")) := rfl
  have hends : Ends (env noFault) False (fun w' r => r = .ok () ∧
      Retried "default" (failedJob "two").id (({} : World).persisted "default" failedJobs) w') _
      (retryActivity "default" (failedJob "one")).run :=
    ends_retryActivity hvalue fun _ h => ⟨rfl, h⟩
  obtain ⟨w', r, hexec, rfl, hretried⟩ := hends.can
  refine ⟨w', hexec, hretried, by decide, fun hall => ?_⟩
  have hapart := (ends_persistAll.1 hall).2
  have hfirst := (hapart.retried (failedJob "one") (by simp [failedJobs])).exec hexec
  exact absurd (hretried.unique hfirst.2) (by decide)

end SharWorkflow
