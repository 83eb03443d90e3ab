import SharWorkflow.Engine.Rules

/-!
# User tasks

A user task is listed for its owners and groups once its start is published, and taken off the lists
when it is closed. This happens side by side, and a call that finds no list saves an empty one
first, whatever others have listed by then. Apart from these saves **no update is lost, repeated or
torn** (`userTasks_serialised`): a list is what the updates that have gone through since the last
save make of it, one after the other.
-/

namespace SharWorkflow

open Concurrent Protocol World

/-- `remove`: the first occurrence goes. -/
def remove {α : Type} [BEq α] (slice : List α) (member : α) : List α := slice.erase member

/-- A list is updated when a task is closed. An error takes the place of an earlier one. -/
def closeUserTaskFor (ns trackingID : String) (retErr : Option Err) (i : String) :
    Act (Option Err) := do
  match ← Act.attempt (updateObj ⟨ns, .wfUserTasks, i⟩ ([] : List String)
    fun (tasks : List String) => .ok (remove tasks trackingID)) with
  | .ok _ => return retErr
  | .error e =>
    return some (.wrap "faiiled to update user tasks object when closing user task" e)

/-- `closeUserTask`. -/
def closeUserTask (ns trackingID : String) : Act Unit := do
  nsKVs ns
  let job ← Act.wrap "load job when closing user task" (loadObj ⟨ns, .job, trackingID⟩)
  let allIDs := WorkflowState.owners job ++ WorkflowState.groups job
  match ← allIDs.foldlM (closeUserTaskFor ns trackingID) none with
  | none => return ()
  | some e => throw e

/-- The start of a task is published, or the task is closed. -/
inductive TaskOp
  | start (state : WorkflowState)
  | close (trackingID : String)

/-- The calls of the operation. -/
def TaskOp.calls (ns : String) : TaskOp → P (Except Err Unit)
  | .start state => (discard (publishWorkflowState ns .jobUserTaskExecute state)).run
  | .close trackingID => (closeUserTask ns trackingID).run

/-- What the operation makes of a list. -/
def TaskOp.updated (tasks : List String) : TaskOp → List String
  | .start state => tasks ++ [TrackingID.ID state.id]
  | .close trackingID => remove tasks trackingID

variable {ι : Type} (op : ι → TaskOp) (ns owner : String)

/-- The tasks that are listed for an owner or a group. -/
def World.tasks (w : World) : List String := (w.value ⟨ns, .wfUserTasks, owner⟩).getD []

/-- What the updates make of the list, one after the other. A save empties it. -/
def serialised (tasks : List String) : List (WEvent ι) → List String
  | [] => tasks
  | e :: t =>
    if isCommitAt ⟨ns, .wfUserTasks, owner⟩ e.op e.answer then
      (op e.thread).updated (serialised tasks t)
    else if isStoreAt ⟨ns, .wfUserTasks, owner⟩ e.op e.answer then []
    else serialised tasks t

/-- The lists are as the updates have left them. -/
def TasksInv (w₀ s : World) (t : List (WEvent ι)) (_ : ι → Unit) : Prop :=
  ∀ owner, s.tasks ns owner = serialised op ns owner (w₀.tasks ns owner) t

variable {op ns owner} {w₀ s s' : World} {t : List (WEvent ι)} {g : ι → Unit} {i : ι} {o : Op}
  {r : Ans o}

theorem serialised_of_not_stored {tasks : List String} {e : WEvent ι}
    (h : isStoreAt ⟨ns, .wfUserTasks, owner⟩ e.op e.answer = false) :
    serialised op ns owner tasks (e :: t) = serialised op ns owner tasks t := by
  obtain ⟨i, s, o, r⟩ := e
  have hcommit : isCommitAt ⟨ns, .wfUserTasks, owner⟩ o r = false := by
    cases o <;> cases r <;> simp_all [isCommitAt, isStoreAt]
  rw [serialised, if_neg (by simp [hcommit]), if_neg (by simp [h])]

theorem TasksInv.event (h : TasksInv op ns w₀ s t g) (hvalue : ∀ l, s'.value l = s.value l)
    (hstore : ∀ l, isStoreAt l o r = false) : TasksInv op ns w₀ s' (⟨i, s, o, r⟩ :: t) g := by
  intro owner
  rw [World.tasks, hvalue, serialised_of_not_stored (hstore _)]
  exact h owner

/-- A list is written. -/
theorem TasksInv.store {tasks : List String} (h : TasksInv op ns w₀ s t g)
    (hother : ∀ l ≠ ⟨ns, .wfUserTasks, owner⟩, isStoreAt l o r = false)
    (htasks : tasks = serialised op ns owner (w₀.tasks ns owner) (⟨i, s, o, r⟩ :: t)) :
    TasksInv op ns w₀ (s.put ⟨ns, .wfUserTasks, owner⟩ tasks) (⟨i, s, o, r⟩ :: t) g := by
  intro owner'
  by_cases howner : owner' = owner
  · subst howner
    rw [World.tasks, put_value_self]
    exact htasks
  · have hne : (⟨ns, .wfUserTasks, owner'⟩ : Loc) ≠ ⟨ns, .wfUserTasks, owner⟩ := by simp [howner]
    rw [World.tasks, put_value_of_ne _ _ hne, serialised_of_not_stored (hother _ hne)]
    exact h owner'

/-! ### Runs -/

variable {F : Op → Prop}

theorem quietInv_tasks : QuietInv F (TasksInv op ns w₀) := fun h henv hquiet =>
  h.event (value_of_quiet henv hquiet) (isStoreAt_of_quiet hquiet)

variable [DecidableEq ι]

/-- The program is part of the operation `i`, and keeps the lists so. -/
abbrev KeepsTasks {α : Type} (F : Op → Prop) (op : ι → TaskOp) (ns : String) (w₀ : World) (i : ι)
    (s : World) (p : P α) : Prop :=
  (natsProtocol F False (fun _ _ => True) (TasksInv op ns w₀)).Safe i (fun _ _ _ => True) () s p

theorem keepsTasks_updateObj {f : List String → List String} (hf : ∀ v, f v = (op i).updated v) :
    KeepsTasks F op ns w₀ i s (updateObj ⟨ns, .wfUserTasks, owner⟩ ([] : List String)
      fun (v : List String) => .ok (f v)).run := by
  refine safe_updateObj quietInv_tasks ?_ ?_ (fun _ _ => trivial) fun _ _ _ => trivial
  · intro s t g hat _ _
    refine hat.inv.store (fun l hl => decide_eq_false hl.symm) ?_
    simp [serialised, isCommitAt, isStoreAt]
  · intro s t g v hat hv _
    refine ⟨(), hat.inv.store (fun l hl => decide_eq_false hl.symm) ?_, trivial⟩
    have hlist : v = s.tasks ns owner := by rw [World.tasks, hv, Option.getD_some]
    rw [hf, hlist, hat.inv owner]
    simp [serialised, isCommitAt]

theorem keepsTasks_openUserTask {id : String} (hop : ∀ v, v ++ [id] = (op i).updated v) :
    KeepsTasks F op ns w₀ i s (openUserTask ns owner id).run := by
  refine Safe.seq (safe_nsKVs quietInv_tasks (fun _ => safe_wrap (Safe.seq ?_)) fun _ _ _ =>
    trivial)
  refine (keepsTasks_updateObj hop).mono ?_
  rintro ⟨⟩ s (e | v) -
  · trivial
  · exact .ret trivial

theorem keepsTasks_start {state : WorkflowState} (hop : op i = .start state) :
    KeepsTasks F op ns w₀ i s (publishWorkflowState ns .jobUserTaskExecute state).run := by
  have hopen (owners : List String) : ∀ s, KeepsTasks F op ns w₀ i s (owners.forM fun i =>
      Act.wrap "open user task during publish workflow state"
        (openUserTask ns i (TrackingID.ID state.id))).run := by
    induction owners with
    | nil => exact fun _ => .ret trivial
    | cons owner owners ih =>
      intro s
      refine Safe.seq (safe_wrap ((keepsTasks_openUserTask fun v => by
        rw [hop, TaskOp.updated]).mono ?_))
      rintro ⟨⟩ s (e | u) -
      · trivial
      · exact ih s
  refine Safe.seq (safe_now quietInv_tasks fun _ => Safe.seq (safe_wrap
    (safe_publishMsg quietInv_tasks (fun hat _ => ?_) fun _ _ _ => trivial)))
  refine hat.same (hat.inv.event (fun _ => rfl) fun _ => rfl) (Safe.seq ((hopen _ _).mono ?_))
  rintro ⟨⟩ s (e | u) -
  · trivial
  · exact .ret trivial

theorem keepsTasks_closeUserTask {trackingID : String} (hop : op i = .close trackingID) :
    KeepsTasks F op ns w₀ i s (closeUserTask ns trackingID).run := by
  have hfold (ids : List String) : ∀ s retErr, KeepsTasks F op ns w₀ i s
      (ids.foldlM (closeUserTaskFor ns trackingID) retErr).run := by
    induction ids with
    | nil => exact fun _ _ => .ret trivial
    | cons id ids ih =>
      intro s retErr
      rw [List.foldlM_cons]
      refine Safe.seq (Safe.seq (safe_attempt ((keepsTasks_updateObj fun v => by
        rw [hop, TaskOp.updated]).mono ?_)))
      rintro ⟨⟩ s (e | v) -
      · exact .ret (ih s _)
      · exact .ret (ih s _)
  refine Safe.seq (safe_nsKVs quietInv_tasks (fun _ => ?_) fun _ _ _ => trivial)
  refine Safe.seq (safe_wrap (safe_loadObj quietInv_tasks (fun _ _ => ?_) (fun _ _ => trivial)
    fun _ _ _ => trivial))
  refine Safe.seq ((hfold _ _ _).mono ?_)
  rintro ⟨⟩ s (e | e | e) -
  · trivial
  · exact .ret trivial
  · exact .ret trivial

/-- **No update is lost but by a save**, in every run of operations on the lists, whichever calls
fail. -/
theorem userTasks_serialised {c : Config ι Op Ans World (Except Err Unit)}
    (hrun : Run (env F) (.start w₀ fun i => (op i).calls ns) c) (owner : String) :
    c.state.tasks ns owner = serialised op ns owner (w₀.tasks ns owner) c.trace := by
  have hkeeps (i : ι) : KeepsTasks F op ns w₀ i w₀ ((op i).calls ns) := by
    cases hop : op i with
    | start state =>
      exact (keepsTasks_start hop).bind fun _ _ r _ => by cases r <;> exact .ret trivial
    | close trackingID => exact keepsTasks_closeUserTask hop
  obtain ⟨g, hsound⟩ := sound_of_run (sound_start (fun _ => rfl) hkeeps) hrun (guarded_true _)
  exact hsound.inv owner

/-- A task with one owner is opened and closed. -/
def openAndClose (second : Bool) : TaskOp :=
  if second then .close "task" else .start { id := ["task"], owners := ["ann"] }

def oneTask : World :=
  ({} : World).put ⟨"default", .job, "task"⟩ ({ owners := ["ann"] } : WorkflowState)

/-- The task is closed while it is being opened, and stays on the list. -/
theorem userTasks_serialised_openAndClose : ∃ c, Run (env noFault)
      (.start oneTask fun i => (openAndClose i).calls "default") c ∧
      (∀ i, c.threads i = .ret (.ok ())) ∧ c.state.tasks "default" "ann" = ["task"] ∧
      serialised openAndClose "default" "ann" [] c.trace = ["task"] := by
  obtain ⟨c, hrun, hreturned, htasks⟩ := exists_run_of_reaches noFault
    (.start oneTask fun i => (openAndClose i).calls "default") (List.replicate 4 (false, .ok) ++
      List.replicate 7 (true, .ok) ++ List.replicate 4 (false, .ok))
    (fun c => (∀ i, c.threads i = .ret (.ok ())) ∧ c.state.tasks "default" "ann" = ["task"])
    (by decide +kernel)
  exact ⟨c, hrun, hreturned, htasks, (userTasks_serialised hrun "ann").symm.trans htasks⟩

end SharWorkflow
