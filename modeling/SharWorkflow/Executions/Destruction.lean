import SharWorkflow.Engine.Alone
import SharWorkflow.Engine.Executions

/-!
# The destruction of a process instance

An execution lists its process instances. When one of them is destroyed, it is taken off the list,
and an execution whose list is empty goes with it. Two things are amiss.

* `destroyProcessInstance` looks at the list before it looks at the error of the update. An update
  that fails early has read nothing, so its list is empty, and the execution is deleted while other
  process instances still run (`execution_deleted_after_failed_read`).
* `xDestroyProcessInstance` deletes the execution in any case. So a process instance that is
  cancelled takes the execution of the others with it (`cancel_deletes_execution`).

The first is told in terms of the calls of the thread and their answers (`Calls`), in any run and
whichever calls fail; the second for a call on its own.
-/

namespace SharWorkflow

open Concurrent Discipline Conduct World

-- sequences are split by `keeps_seq` and `ends_seq`
attribute [-simp] ExceptT.run_bind

/-! ### A failed update -/

/-- The calls of a thread with their answers, newest first. -/
abbrev Calls : Type := List (Σ o : Op, Ans o)

/-- Where an execution is stored. -/
abbrev executionLoc (ns executionId : String) : Loc := ⟨ns, .wfExecution, executionId⟩

/-- The execution that a call has read. -/
def executionRead (ns executionId : String) : (o : Op) → Ans o → Option Execution
  | .get ⟨ns', .wfExecution, id⟩, .ok entry =>
    if ns' = ns ∧ id = executionId then some entry.value else none
  | _, _ => none

/-- The call is a deletion at `l`, and it has failed. -/
def failsToDelete (l : Loc) : (o : Op) → Ans o → Bool
  | .delete l', .error _ => l' = l
  | _, _ => false

namespace Calls

/-- The object was read, or was to be read. -/
def Reads (l : Loc) (calls : Calls) : Prop := ∃ c ∈ calls, isReadAt l c.1 = true

/-- An update of the object went through. -/
def Updates (l : Loc) (calls : Calls) : Prop := ∃ c ∈ calls, isCommitAt l c.1 c.2 = true

/-- The object was deleted. -/
def Deletes (l : Loc) (calls : Calls) : Prop := ∃ c ∈ calls, isDeleteAt l c.1 c.2 = true

/-- The object was to be deleted, and the call has failed. -/
def FailsToDelete (l : Loc) (calls : Calls) : Prop := ∃ c ∈ calls, failsToDelete l c.1 c.2 = true

instance (l : Loc) (calls : Calls) : Decidable (Reads l calls) := by
  unfold Reads
  infer_instance

instance (l : Loc) (calls : Calls) : Decidable (Updates l calls) := by
  unfold Updates
  infer_instance

instance (l : Loc) (calls : Calls) : Decidable (Deletes l calls) := by
  unfold Deletes
  infer_instance

section

variable {l : Loc} {c : Σ o : Op, Ans o} {calls : Calls}

@[simp]
theorem reads_cons : Reads l (c :: calls) ↔ isReadAt l c.1 = true ∨ Reads l calls := by
  simp [Reads]

@[simp]
theorem updates_cons : Updates l (c :: calls) ↔ isCommitAt l c.1 c.2 = true ∨ Updates l calls := by
  simp [Updates]

@[simp]
theorem deletes_cons : Deletes l (c :: calls) ↔ isDeleteAt l c.1 c.2 = true ∨ Deletes l calls := by
  simp [Deletes]

@[simp]
theorem failsToDelete_cons :
    FailsToDelete l (c :: calls) ↔ failsToDelete l c.1 c.2 = true ∨ FailsToDelete l calls := by
  simp [FailsToDelete]

end

variable (ns executionId : String)

/-- The execution as the update has read it last. The first read only finds out whether there is
anything to update. -/
def lastRead : Calls → Option Execution
  | [] => none
  | c :: calls =>
    match executionRead ns executionId c.1 c.2 with
    | none => lastRead calls
    | some v => if Reads (executionLoc ns executionId) calls then some v else none

/-- The process instances that the update wants to leave: the others of the execution it has read
last, and none if it has read nothing. -/
def remaining (processInstanceId : String) (calls : Calls) : List String :=
  match lastRead ns executionId calls with
  | none => []
  | some v => v.processInstanceId.erase processInstanceId

end Calls

open Calls

/-- The update of the execution has begun, has not gone through, and nothing was deleted so far. -/
structure Updating (ns executionId : String) (calls : Calls) : Prop where
  reads : calls.Reads (executionLoc ns executionId)
  not_updates : ¬ calls.Updates (executionLoc ns executionId)
  not_deletes : ∀ l, ¬ calls.Deletes l ∧ ¬ calls.FailsToDelete l

variable {ns executionId processInstanceId : String} {calls : Calls}

/-- A call that neither updates the execution nor deletes anything. -/
theorem Updating.cons (h : Updating ns executionId calls) {o : Op} {r : Ans o}
    (hcommit : isCommitAt (executionLoc ns executionId) o r = false)
    (hdelete : ∀ l, isDeleteAt l o r = false ∧ failsToDelete l o r = false) :
    Updating ns executionId (⟨o, r⟩ :: calls) where
  reads := reads_cons.2 (.inr h.reads)
  not_updates := by simpa [hcommit] using h.not_updates
  not_deletes l := by simpa [hdelete l] using h.not_deletes l

/-- A read that finds nothing leaves things as they are. -/
theorem remaining_cons {o : Op} {r : Ans o} (h : executionRead ns executionId o r = none) :
    remaining ns executionId processInstanceId (⟨o, r⟩ :: calls) =
      remaining ns executionId processInstanceId calls := by
  simp [remaining, lastRead, h]

/-- A later read of the execution says what is left. -/
theorem remaining_cons_read (hreads : calls.Reads (executionLoc ns executionId))
    (processInstanceId : String) (entry : Entry Execution) :
    remaining ns executionId processInstanceId
        (⟨.get (executionLoc ns executionId), .ok entry⟩ :: calls) =
      entry.value.processInstanceId.erase processInstanceId := by
  simp [remaining, lastRead, executionRead, hreads]

/-- How the update ends: it has gone through, or the message object holds what the update wanted to
leave. -/
def UpdateEnded (ns executionId processInstanceId : String) (calls : Calls) :
    Except Err Unit × Execution → Prop
  | (.ok _, _) => calls.Updates (executionLoc ns executionId)
  | (.error _, e) => Updating ns executionId calls ∧
      e.processInstanceId = remaining ns executionId processInstanceId calls

/-- The update function of `destroyProcessInstance`. -/
abbrev dropInstance (processInstanceId : String) (v : Execution) : Except Err Execution :=
  .ok { v with processInstanceId := v.processInstanceId.erase processInstanceId }

theorem keeps_perform_recording {o : Op} {Q : Calls → Ans o → Prop} :
    recording.Keeps Q calls (Prog.perform o) ↔ ∀ r, Q (⟨o, r⟩ :: calls) r :=
  keeps_recording_call.trans (forall_congr' fun _ => keeps_ret)

theorem keeps_updateKV_dropInstance {msg : Execution} (h : Updating ns executionId calls)
    (hmsg : msg.processInstanceId = remaining ns executionId processInstanceId calls) :
    recording.Keeps (UpdateEnded ns executionId processInstanceId) calls
      (updateKV (executionLoc ns executionId) msg (dropInstance processInstanceId)) := by
  refine Keeps.loop (P := fun calls (msg : Execution) => Updating ns executionId calls ∧
      msg.processInstanceId = remaining ns executionId processInstanceId calls)
    (M := UpdateEnded ns executionId processInstanceId) ⟨h, hmsg⟩ ?_ fun _ _ hended =>
      keeps_ret.2 hended
  rintro calls msg ⟨h, hmsg⟩
  refine keeps_bind.2 ((keeps_perform_recording (o := .get (executionLoc ns executionId))).2
    fun r => ?_)
  have hread := h.cons (o := .get (executionLoc ns executionId)) (r := r) rfl fun _ => ⟨rfl, rfl⟩
  cases r with
  | error e => exact keeps_ret.2 ⟨hread, hmsg.trans (remaining_cons rfl).symm⟩
  | ok entry =>
    refine keeps_bind.2 ((keeps_perform_recording
      (o := .update (executionLoc ns executionId) _ _)).2 fun r => ?_)
    have hleft := remaining_cons_read h.reads processInstanceId entry
    cases r with
    | ok _ => exact keeps_ret.2 (updates_cons.2 (.inl (by simp [isCommitAt])))
    | error e =>
      -- whether it starts over or gives up, the message object holds what it has just computed
      have hfailed {v : Execution} {revision : Nat} :=
        hread.cons (o := .update (executionLoc ns executionId) v revision) (r := .error e) rfl
          fun _ => ⟨rfl, rfl⟩
      dsimp only
      split
      · exact keeps_ret.2 ⟨hfailed, hleft.symm⟩
      · exact keeps_ret.2 ⟨hfailed, hleft.symm⟩

theorem keeps_updateObjMsg_dropInstance :
    recording.Keeps (UpdateEnded ns executionId processInstanceId) [⟨.kvsFor ns, .ok ()⟩]
      (updateObjMsg (executionLoc ns executionId) {} (dropInstance processInstanceId)) := by
  refine keeps_bind.2 ((keeps_perform_recording (o := .get (executionLoc ns executionId))).2
    fun old => ?_)
  -- the first read is not yet one of the update itself
  have hold : Updating ns executionId
      [⟨.get (executionLoc ns executionId), old⟩, ⟨.kvsFor ns, .ok ()⟩] :=
    ⟨by simp [Reads, isReadAt], by simp [Updates, isCommitAt],
      fun l => by simp [Deletes, FailsToDelete, isDeleteAt, failsToDelete]⟩
  have hnone : remaining ns executionId processInstanceId
      [⟨.get (executionLoc ns executionId), old⟩, ⟨.kvsFor ns, .ok ()⟩] = [] := by
    cases old <;> simp [remaining, lastRead, executionRead, Reads, isReadAt]
  refine keeps_ite.2 ⟨fun _ => ?_, fun _ => keeps_updateKV_dropInstance hold hnone.symm⟩
  refine keeps_bind.2 (keeps_wrap.2 ((keeps_perform_recording
    (o := .put (executionLoc ns executionId) ({} : Execution))).2 fun r => ?_))
  have hsaved := hold.cons (o := .put (executionLoc ns executionId) ({} : Execution)) (r := r) rfl
    fun _ => ⟨rfl, rfl⟩
  have hleft : remaining ns executionId processInstanceId
      [⟨.put (executionLoc ns executionId) ({} : Execution), r⟩,
        ⟨.get (executionLoc ns executionId), old⟩, ⟨.kvsFor ns, .ok ()⟩] = [] :=
    (remaining_cons rfl).trans hnone
  cases r with
  | error e => exact keeps_ret.2 ⟨hsaved, hleft.symm⟩
  | ok _ => exact keeps_updateKV_dropInstance hsaved hleft.symm

/-- What is told about `destroyProcessInstance` when the update has failed. -/
def FailedUpdateLaw (ns executionId processInstanceId : String) (calls : Calls)
    (r : Except Err Unit) : Prop :=
  ((∃ e, r = .error e) ∧ ¬ calls.Deletes (executionLoc ns executionId) ∧
      ¬ calls.Deletes ⟨ns, .wfProcessInstance, processInstanceId⟩) ↔
    remaining ns executionId processInstanceId calls ≠ [] ∨
      calls.FailsToDelete (executionLoc ns executionId)

/-- The update has read other process instances. -/
theorem Updating.failedUpdateLaw_of_remaining (h : Updating ns executionId calls)
    (hsome : remaining ns executionId processInstanceId calls ≠ []) (e : Err) :
    FailedUpdateLaw ns executionId processInstanceId calls (.error e) :=
  iff_of_true ⟨⟨e, rfl⟩, (h.not_deletes _).1, (h.not_deletes _).1⟩ (.inl hsome)

/-- The execution is deleted although the update has failed. -/
theorem Updating.failedUpdateLaw_of_deleted (h : Updating ns executionId calls)
    (hnone : remaining ns executionId processInstanceId calls = []) (r : Except Err Unit) :
    FailedUpdateLaw ns executionId processInstanceId
      (⟨.delete (executionLoc ns executionId), .ok ()⟩ :: calls) r := by
  have hleft : remaining ns executionId processInstanceId
      (⟨.delete (executionLoc ns executionId), .ok ()⟩ :: calls) = [] :=
    (remaining_cons rfl).trans hnone
  refine iff_of_false (fun hkept => hkept.2.1 ?_) ?_
  · exact deletes_cons.2 (.inl (by simp [isDeleteAt]))
  · simpa [hleft, failsToDelete] using (h.not_deletes _).2

/-- The execution is to be deleted, and this fails too. -/
theorem Updating.failedUpdateLaw_of_not_deleted (h : Updating ns executionId calls) (e e' : Err) :
    FailedUpdateLaw ns executionId processInstanceId
      (⟨.delete (executionLoc ns executionId), .error e⟩ :: calls) (.error e') := by
  refine iff_of_true ⟨⟨e', rfl⟩, ?_, ?_⟩ (.inr (by simp [failsToDelete]))
  · simpa [isDeleteAt] using (h.not_deletes _).1
  · simpa [isDeleteAt] using (h.not_deletes _).1

variable {state : WorkflowState}

theorem keeps_destroyProcessInstance :
    recording.Keeps (fun (calls : Calls) r => calls.Reads (executionLoc ns executionId) →
        calls.Updates (executionLoc ns executionId) ∨
          FailedUpdateLaw ns executionId processInstanceId calls r) []
      (destroyProcessInstance ns state processInstanceId executionId).run := by
  refine keeps_seq.2 (keeps_wrap.2 ((keeps_perform_recording (o := .kvsFor ns)).2 fun r => ?_))
  cases r with
  | error e => simp [Except.mapError, Reads, isReadAt]
  | ok _ =>
    refine keeps_seq.2 (keeps_liftM.2 (Keeps.mono keeps_updateObjMsg_dropInstance ?_))
    rintro calls ⟨updated, e⟩ hended
    cases updated with
    | ok _ =>
      refine Keeps.mono (keeps_recording_of_stable (I := Updates (executionLoc ns executionId))
        (fun c calls h => updates_cons.2 (.inr h)) hended _) fun calls r h _ => .inl h
    | error err =>
      obtain ⟨hcalls, he⟩ := hended
      refine keeps_seq.2 (keeps_when.2 ⟨fun hlength => ?_, fun hlength => ?_⟩)
      · have hnone : remaining ns executionId processInstanceId calls = [] :=
          he ▸ List.length_eq_zero_iff.1 hlength
        refine keeps_wrap.2 (keeps_wrap.2 ((keeps_perform_recording
          (o := .delete (executionLoc ns executionId))).2 fun r => ?_))
        cases r with
        | ok _ =>
          exact keeps_seq.2 (keeps_wrap.2 (keeps_ofExcept.2 fun _ =>
            .inr (hcalls.failedUpdateLaw_of_deleted hnone _)))
        | error e => exact fun _ => .inr (hcalls.failedUpdateLaw_of_not_deleted e _)
      · have hsome : remaining ns executionId processInstanceId calls ≠ [] :=
          fun h => hlength (by rw [he, h]; rfl)
        exact keeps_seq.2 (keeps_wrap.2 (keeps_ofExcept.2 fun _ =>
          .inr (hcalls.failedUpdateLaw_of_remaining hsome _)))

/-- **A failed update of the execution.** In any run, whatever the other threads do and whichever
calls fail: if the update of the execution has begun and has not gone through,
`destroyProcessInstance` returns an error and deletes neither the execution nor the process
instance, exactly if the update had read other process instances before it failed, or the deletion
of the execution fails as well. -/
theorem destroyProcessInstance_deletes_nothing_iff {ι : Type} [DecidableEq ι] {F : Op → Prop}
    {w : World} {threads : ι → P (Except Err Unit)} {i : ι}
    {ns executionId processInstanceId : String} {state : WorkflowState}
    (hi : threads i = (destroyProcessInstance ns state processInstanceId executionId).run)
    {c : Config ι Op Ans World (Except Err Unit)} (hrun : Run (env F) (.start w threads) c)
    {r : Except Err Unit} (hreturned : c.threads i = .ret r)
    (hbegun : Reads (executionLoc ns executionId) (ownCalls i c.trace))
    (hfailed : ¬ Updates (executionLoc ns executionId) (ownCalls i c.trace)) :
    ((∃ e, r = .error e) ∧ ¬ Deletes (executionLoc ns executionId) (ownCalls i c.trace) ∧
        ¬ Deletes ⟨ns, .wfProcessInstance, processInstanceId⟩ (ownCalls i c.trace)) ↔
      remaining ns executionId processInstanceId (ownCalls i c.trace) ≠ [] ∨
        FailsToDelete (executionLoc ns executionId) (ownCalls i c.trace) := by
  have hlaw := Keeps.recorded (hi ▸ keeps_destroyProcessInstance) hrun
  rw [hreturned] at hlaw
  exact (keeps_ret.1 hlaw hbegun).resolve_left hfailed

/-- An execution with two process instances. -/
def sharedExecution : World :=
  ((({} : World).put ⟨"default", .wfExecution, "execution"⟩
    { executionId := "execution", workflowId := "workflow", processInstanceId := ["a", "b"] }).put
    ⟨"default", .wfProcessInstance, "a"⟩
    { processInstanceId := "a", executionId := "execution", workflowId := "workflow" }).put
    ⟨"default", .wfProcessInstance, "b"⟩
    { processInstanceId := "b", executionId := "execution", workflowId := "workflow" }

/-- The first of them is destroyed. -/
def destroyFirst (_ : Unit) : P (Except Err Unit) :=
  (destroyProcessInstance "default" {} "a" "execution").run

theorem destroyProcessInstance_deletes_nothing_conflict :
    ∃ c r, Run (env anyFault) (.start sharedExecution destroyFirst) c ∧
      c.threads () = .ret r ∧ (∃ e, r = .error e) ∧
      ¬ Deletes (executionLoc "default" "execution") (ownCalls () c.trace) ∧
      ¬ Deletes ⟨"default", .wfProcessInstance, "a"⟩ (ownCalls () c.trace) := by
  obtain ⟨c, hrun, ⟨e, he⟩, hbegun, hfailed, hothers⟩ := exists_run_of_reaches anyFault
    (.start sharedExecution destroyFirst) (List.replicate 4 ((), .ok) ++ [((), .fail)])
    (fun c => (∃ e, c.threads () = .ret (.error e)) ∧
      Reads (executionLoc "default" "execution") (ownCalls () c.trace) ∧
      ¬ Updates (executionLoc "default" "execution") (ownCalls () c.trace) ∧
      remaining "default" "execution" "a" (ownCalls () c.trace) ≠ []) (by decide +kernel)
  have hlaw := destroyProcessInstance_deletes_nothing_iff
    (show destroyFirst () = (destroyProcessInstance "default" {} "a" "execution").run from rfl)
    hrun he hbegun hfailed
  exact ⟨c, _, hrun, he, hlaw.2 (.inl hothers)⟩

/-- **A failed read.** The update cannot read the execution back. An error is returned, and the
execution is deleted, although the process instance `b` belongs to it as well. -/
theorem execution_deleted_after_failed_read :
    ∃ c e, Run (env anyFault) (.start sharedExecution destroyFirst) c ∧
      c.threads () = .ret (.error e) ∧
      Reads (executionLoc "default" "execution") (ownCalls () c.trace) ∧
      ¬ Updates (executionLoc "default" "execution") (ownCalls () c.trace) ∧
      Deletes (executionLoc "default" "execution") (ownCalls () c.trace) ∧
      c.state.value (executionLoc "default" "execution") = none ∧
      c.state.value ⟨"default", .wfProcessInstance, "b"⟩ ≠ none := by
  obtain ⟨c, hrun, ⟨e, he⟩, hrest⟩ := exists_run_of_reaches anyFault
    (.start sharedExecution destroyFirst) (List.replicate 3 ((), .ok) ++ [((), .fail), ((), .ok)])
    (fun c => (∃ e, c.threads () = .ret (.error e)) ∧
      Reads (executionLoc "default" "execution") (ownCalls () c.trace) ∧
      ¬ Updates (executionLoc "default" "execution") (ownCalls () c.trace) ∧
      Deletes (executionLoc "default" "execution") (ownCalls () c.trace) ∧
      c.state.value (executionLoc "default" "execution") = none ∧
      c.state.value ⟨"default", .wfProcessInstance, "b"⟩ ≠ none) (by decide +kernel)
  exact ⟨c, e, hrun, he, hrest⟩

/-! ### A cancelled process instance -/

section

variable {F : Op → Prop} {X : Prop} {w w₀ : World} {l : Loc} {ls : List Loc}

/-- The worlds hold the same objects, except at the given places. -/
def World.SameBut (ls : List Loc) (w w' : World) : Prop := ∀ l ∉ ls, w'.value l = w.value l

namespace World.SameBut

theorem refl : w.SameBut ls w := fun _ _ => rfl

theorem put (h : w₀.SameBut ls w) (hl : l ∈ ls) (v : l.Val) : w₀.SameBut ls (w.put l v) := by
  intro l' hl'
  have hne : l' ≠ l := fun h => hl' (h ▸ hl)
  rw [put_value_of_ne w v hne, h l' hl']

theorem clear (h : w₀.SameBut ls w) (hl : l ∈ ls) : w₀.SameBut ls (w.clear l) := by
  intro l' hl'
  have hne : l' ≠ l := fun h => hl' (h ▸ hl)
  rw [clear_value_of_ne w hne, h l' hl']

theorem trans {w' : World} {ls' : List Loc} (h : w₀.SameBut ls w) (h' : w.SameBut ls' w')
    (hsub : ls' ⊆ ls) : w₀.SameBut ls w' := by
  intro l hl
  have hl' : l ∉ ls' := fun h => hl (hsub h)
  rw [h' l hl', h l hl]

theorem publish (h : w₀.SameBut ls w) (m : Msg) : w₀.SameBut ls (w.publish m) := h

end World.SameBut

theorem ends_updateObjMsg_sameBut {msg : l.Val} {f : l.Val → Except Err l.Val}
    (hw : w₀.SameBut ls w) (hl : l ∈ ls) :
    Ends (env F) X (fun w' _ => w₀.SameBut ls w') w (updateObjMsg l msg f) := by
  have hloop {w : World} (hw : w₀.SameBut ls w) :
      Ends (env F) X (fun w' _ => w₀.SameBut ls w') w (updateKV l msg f) := by
    refine ends_updateKV.2 ⟨fun _ => hw, fun v _ => ?_, fun _ _ => hw⟩
    split
    · exact hw
    · exact ⟨hw.put hl _, fun _ _ => hw⟩
  exact ends_updateObjMsg.2 ⟨fun _ => ⟨hloop (hw.put hl _), fun _ _ => hw⟩, fun _ => hloop hw⟩

/-- `destroyProcessInstance` touches the execution and the process instance only. -/
theorem ends_destroyProcessInstance_sameBut (hw : w₀.SameBut ls w)
    (hexecution : executionLoc ns executionId ∈ ls)
    (hinstance : ⟨ns, .wfProcessInstance, processInstanceId⟩ ∈ ls) :
    Ends (env F) X (fun w' _ => w₀.SameBut ls w') w
      (destroyProcessInstance ns state processInstanceId executionId).run := by
  refine ends_seq.2 (ends_nsKVs.2 ⟨?_, fun _ _ => hw⟩)
  refine ends_seq.2 (ends_liftM.2 ((ends_updateObjMsg_sameBut hw hexecution).mono ?_))
  rintro w ⟨updated, e⟩ hw
  refine ends_seq.2 (ends_when.2 ⟨fun _ => ends_wrap.2 (ends_delete.2 ⟨?_, fun _ _ => hw⟩),
    fun _ => ?_⟩)
  on_goal 1 => replace hw := hw.clear hexecution
  all_goals
    have hcleared := hw.clear hinstance
    cases updated with
    | error err => exact ends_seq.2 (ends_wrap.2 (ends_ofExcept.2 hw))
    | ok _ => simp [ends_publishWorkflowState, hw, hcleared, World.SameBut.publish]

/-- `deleteExecution` deletes the execution and its tracking. It fails if one of its calls does. -/
theorem ends_deleteExecution {Q : World → Except Err Unit → Prop}
    (hok : ∀ m, Q (((w.clear (executionLoc ns state.executionId)).clear
      ⟨ns, .wfTracking, state.executionId⟩).publish m) (.ok ()))
    (hfail : ∀ w' e, w.SameBut [executionLoc ns state.executionId,
      ⟨ns, .wfTracking, state.executionId⟩] w' → Q w' (.error e)) :
    Ends (env F) X Q w (deleteExecution ns state).run := by
  have hsame : w.SameBut
      [executionLoc ns state.executionId, ⟨ns, .wfTracking, state.executionId⟩] w :=
    .refl
  have hexecution := hsame.clear (l := executionLoc ns state.executionId) (by simp)
  have htracking := hexecution.clear (l := ⟨ns, .wfTracking, state.executionId⟩) (by simp)
  simp [deleteExecution, ends_publishWorkflowState, hok, Err.is, hfail _ _ hsame,
    hfail _ _ hexecution, hfail _ _ htracking]

/-- The places that the cancellation of a process instance touches. -/
def cancelled (ns : String) (state : WorkflowState) (pi : ProcessInstance) (execution : Execution) :
    List Loc :=
  [executionLoc ns execution.executionId, ⟨ns, .wfProcessInstance, pi.processInstanceId⟩,
    executionLoc ns state.executionId, ⟨ns, .wfTracking, state.executionId⟩]

/-- How a cancellation ends: if it succeeds, the execution is gone, or nothing has changed. And only
the execution, its tracking and the process instance are touched. -/
structure Cancels (ns : String) (state : WorkflowState) (w w' : World) (r : Except Err Unit) :
    Prop where
  gone : r = .ok () → w'.value (executionLoc ns state.executionId) = none ∨ w' = w
  sameBut : ∀ pi execution,
    w.value ⟨ns, .wfProcessInstance, state.processInstanceId⟩ = some pi →
      w.value (executionLoc ns state.executionId) = some execution →
      w.SameBut (cancelled ns state pi execution) w'

namespace Cancels

variable {state : WorkflowState}

theorem unchanged {r : Except Err Unit} : Cancels ns state w w r :=
  ⟨fun _ => .inr rfl, fun _ _ _ _ => .refl⟩

variable {execution : Execution} {pi : ProcessInstance}

theorem failed {w' : World} {e : Err}
    (hpi : w.value ⟨ns, .wfProcessInstance, state.processInstanceId⟩ = some pi)
    (hexecution : w.value (executionLoc ns state.executionId) = some execution)
    (h : w.SameBut (cancelled ns state pi execution) w') : Cancels ns state w w' (.error e) where
  gone := nofun
  sameBut pi' execution' hpi' hexecution' := by
    rw [hpi] at hpi'
    rw [hexecution] at hexecution'
    cases hpi'
    cases hexecution'
    exact h

theorem deleted {w' : World}
    (hpi : w.value ⟨ns, .wfProcessInstance, state.processInstanceId⟩ = some pi)
    (hexecution : w.value (executionLoc ns state.executionId) = some execution)
    (h : w.SameBut (cancelled ns state pi execution) w') (m : Msg) :
    Cancels ns state w (((w'.clear (executionLoc ns state.executionId)).clear
      ⟨ns, .wfTracking, state.executionId⟩).publish m) (.ok ()) where
  gone _ := .inl (by simp)
  sameBut := (failed (e := .text "") hpi hexecution ((h.clear (by simp [cancelled])).clear
    (by simp [cancelled]))).sameBut

end Cancels

theorem ends_instanceOrMissing {Q : World → Except Err (Option ProcessInstance) → Prop}
    (hfound : ∀ pi, w.value ⟨ns, .wfProcessInstance, state.processInstanceId⟩ = some pi →
      Q w (.ok (some pi))) (hmissing : Q w (.ok none)) (hfailed : ∀ e, Q w (.error e)) :
    Ends (env F) X Q w (instanceOrMissing ns state).run := by
  have herror (e : Err) : Q w ((optionalResult Err.integrityErrors
      (.error e : Except Err ProcessInstance)).mapError
        (.wrap "x destroy process instance, get process instance")) := by
    rw [optionalResult_error]
    split
    · exact hmissing
    · exact hfailed _
  exact ends_wrap.2 (ends_optional.2 ((ends_loadFor ⟨_, .wfProcessInstance, _⟩).2
    ⟨fun _ => herror _, hfound, fun _ _ => herror _, fun _ _ => herror _⟩))

theorem ends_xDestroyProcessInstance :
    Ends (env F) X (Cancels ns state w) w (xDestroyProcessInstance ns state).run := by
  refine ends_seq.2 (ends_nsKVs.2 ⟨?_, fun _ _ => .unchanged⟩)
  refine ends_seq.2 (ends_wrap.2 ((ends_loadFor ⟨_, .wfExecution, _⟩).2 ⟨fun _ => .unchanged,
    fun execution hexecution => ?_, fun _ _ => .unchanged, fun _ _ => .unchanged⟩))
  refine ends_seq.2 (ends_instanceOrMissing (fun pi hpi => ?_) (ends_pure.2 .unchanged)
    fun _ => .unchanged)
  have hfailed {w' : World} {e : Err} (hw' : w.SameBut (cancelled ns state pi execution) w') :
      Cancels ns state w w' (.error e) := .failed hpi hexecution hw'
  have hsame : w.SameBut (cancelled ns state pi execution) w := .refl
  refine ends_seq.2 (ends_wrap.2 ((ends_destroyProcessInstance_sameBut hsame (by simp [cancelled])
    (by simp [cancelled])).mono fun w' r hw' => ?_))
  cases r with
  | error e => exact hfailed hw'
  | ok _ =>
    have hdeletion : Ends (env F) X (Cancels ns state w) w'
        (Act.wrap "delete workflow state whilst destroying execution" (deleteExecution ns
          (if state.error.isSome then { state with state := .errored } else state))).run := by
      have hid : (if state.error.isSome then { state with state := .errored } else
          state : WorkflowState).executionId = state.executionId := by
        split <;> rfl
      refine ends_wrap.2 (ends_deleteExecution (fun m => ?_) fun w'' e hsame => hfailed ?_)
      · rw [hid]
        exact .deleted hpi hexecution hw' m
      · rw [hid] at hsame
        exact hw'.trans hsame (by simp [cancelled])
    refine ends_seq.2 (ends_when.2 ⟨fun _ => ?_, fun _ => hdeletion⟩)
    -- whether the definition is found does not matter
    exact ends_seq.2 (ends_attempt.2 (ends_loadObj.2 ⟨fun _ => ends_pure.2 hdeletion,
      fun _ _ => ends_pure.2 hdeletion, fun _ _ => ends_pure.2 hdeletion⟩))

/-- **What a cancellation does**, whichever calls fail: if it succeeds, the execution is gone, or
nothing has changed. -/
theorem ends_cancelProcessInstance :
    Ends (env F) X (Cancels ns state w) w (cancelProcessInstance ns state).run := by
  refine ends_run_ite.2 ⟨fun _ => ends_throw.2 .unchanged, fun _ => ends_mapError.2 ?_⟩
  refine ends_xDestroyProcessInstance.mono fun w' r h => ?_
  cases r with
  | ok _ => exact h
  | error e => exact ⟨nofun, h.sameBut⟩

end

/-- **Only the process instance is removed**: it is gone, the execution lists exactly the others,
and the entries, jobs and history of the others are what they were. -/
structure RemovesOnly (ns executionId processInstanceId : String) (instances : List String)
    (w w' : World) : Prop where
  removed : w'.value ⟨ns, .wfProcessInstance, processInstanceId⟩ = none
  listed : ∃ execution, w'.value (executionLoc ns executionId) = some execution ∧
    execution.processInstanceId = instances.filter (· ≠ processInstanceId)
  kept : ∀ id ∈ instances, id ≠ processInstanceId →
    w'.value ⟨ns, .wfProcessInstance, id⟩ = w.value ⟨ns, .wfProcessInstance, id⟩
  jobs : ∀ jobId job, w.value ⟨ns, .job, jobId⟩ = some job → job.processInstanceId ∈ instances →
    job.processInstanceId ≠ processInstanceId → w'.value ⟨ns, .job, jobId⟩ = some job
  history : ∀ id ∈ instances, id ≠ processInstanceId → ∀ trackingId historyType,
    w'.value (historyLoc ns id trackingId historyType) =
      w.value (historyLoc ns id trackingId historyType)

/-- **A cancellation never removes the process instance only**, whichever calls fail and however
many process instances the execution has: if it succeeds, the execution is gone, or nothing has
changed. -/
theorem cancelProcessInstance_not_removesOnly {F : Op → Prop} {w w' : World} {ns : String}
    {state : WorkflowState} {execution : Execution}
    (hexecution : w.value (executionLoc ns state.executionId) = some execution)
    (hlisted : state.processInstanceId ∈ execution.processInstanceId)
    (hcancelled : Exec (env F) w (cancelProcessInstance ns state).run w' (.ok ())) :
    ¬ RemovesOnly ns state.executionId state.processInstanceId execution.processInstanceId w
      w' := by
  intro honly
  obtain ⟨execution', hexecution', hothers⟩ := honly.listed
  have hends := (ends_cancelProcessInstance (X := True)).exec hcancelled
  rcases hends.gone rfl with hgone | rfl
  · rw [hgone] at hexecution'
    cases hexecution'
  · -- nothing has changed, so the process instance is still listed
    obtain rfl : execution = execution' := Option.mem_unique hexecution hexecution'
    rw [hothers] at hlisted
    simp at hlisted

/-- The order to cancel the first process instance. -/
def cancelFirst : WorkflowState where
  executionId := "execution"
  processInstanceId := "a"
  state := .terminated

theorem cancelFirst_succeeds : ∃ w', Exec (env noFault) sharedExecution
        (cancelProcessInstance "default" cancelFirst).run w' (.ok ()) ∧
      w'.value (executionLoc "default" "execution") = none ∧
      w'.value ⟨"default", .wfProcessInstance, "b"⟩ ≠ none := by
  obtain ⟨w', r, hexec, htest⟩ := exists_exec_of_reaches noFault sharedExecution
    (cancelProcessInstance "default" cancelFirst).run (List.replicate 19 .ok)
    (fun w' r => r.toBool && ((w'.value (executionLoc "default" "execution")).isNone &&
      (w'.value ⟨"default", .wfProcessInstance, "b"⟩).isSome)) (by decide +kernel)
  simp only [Bool.and_eq_true, Option.isNone_iff_eq_none, Option.isSome_iff_ne_none] at htest
  cases r with
  | ok _ => exact ⟨w', hexec, htest.2⟩
  | error e => cases htest.1

theorem cancelProcessInstance_not_removesOnly_first :
    ∃ w', Exec (env noFault) sharedExecution
        (cancelProcessInstance "default" cancelFirst).run w' (.ok ()) ∧
      ¬ RemovesOnly "default" "execution" "a" ["a", "b"] sharedExecution w' := by
  obtain ⟨w', hexec, -⟩ := cancelFirst_succeeds
  have hstored : sharedExecution.value (executionLoc "default" cancelFirst.executionId) = some
      { executionId := "execution", workflowId := "workflow"
        processInstanceId := ["a", "b"] } := rfl
  exact ⟨w', hexec, cancelProcessInstance_not_removesOnly hstored (by decide) hexec⟩

/-- **A cancelled process instance takes the execution with it.** The execution has another process
instance, which is still there. -/
theorem cancel_deletes_execution : ∃ w', Exec (env noFault) sharedExecution
        (cancelProcessInstance "default" cancelFirst).run w' (.ok ()) ∧
      w'.value (executionLoc "default" "execution") = none ∧
      w'.value ⟨"default", .wfProcessInstance, "b"⟩ ≠ none ∧
      ¬ RemovesOnly "default" "execution" "a" ["a", "b"] sharedExecution w' := by
  obtain ⟨w', hexec, hgone, hother⟩ := cancelFirst_succeeds
  refine ⟨w', hexec, hgone, hother, fun honly => ?_⟩
  obtain ⟨execution, hexecution, -⟩ := honly.listed
  rw [hgone] at hexecution
  cases hexecution

end SharWorkflow
