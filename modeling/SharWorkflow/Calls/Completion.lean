import Mathlib.Data.Fintype.Option
import SharWorkflow.Engine.Handlers
import SharWorkflow.Engine.Alone

/-!
# The end of a called process

The end event of a process that was launched by a call activity completes the job of the caller. The
handler publishes the completion twice: once when it has found the job, and again when it has
destroyed the process instance. So in every interleaving in which the handling of the end event
returns, the completion of the job has been published **twice**, and the activity of the caller is
completed once for each.

* `completionDiscipline`: an account of the completions that the handler publishes.
* `ChildEnd`: a called process whose token has reached its end event.
* `launch_complete_published_twice`: the theorem.
-/

namespace SharWorkflow

open Concurrent Discipline Scope World

-- sequences are split by `ends_seq` and `keeps_seq`
attribute [-simp] ExceptT.run_bind

/-! ### Counting completions -/

/-- The message completes the job of a call activity. -/
def Msg.completesLaunch (m : Msg) : Bool := m.subject = .jobLaunchComplete

/-- The number of completions of such jobs that have been published. -/
def launchCompletions (w : World) : Nat := w.log.countP Msg.completesLaunch

/-- The completions that a call publishes: one or none. -/
def completionsBy : (o : Op) → Ans o → Nat
  | .publish m, .ok _ => if m.completesLaunch then 1 else 0
  | _, _ => 0

theorem launchCompletions_of_env {F : Op → Prop} {o : Op} {s s' : World} {r : Ans o}
    (h : env F o s r s') :
    launchCompletions s' = launchCompletions s + completionsBy o r := by
  cases effect_of_env h with
  | publish m => simp [launchCompletions, completionsBy, List.countP_cons]
  | quiet hquiet =>
    cases o with
    | publish m =>
      obtain ⟨e, rfl⟩ := hquiet
      rfl
    | _ => rfl
  | _ => rfl

/-- The text of the log for a traversal that ends in a fatal error. -/
def fatalTraversal : String := "workflow fatally terminated whilst traversing"

/-- The scope of a program that completes no job of a call activity. -/
def callerScope (ns : String) : Scope :=
  ⟨ns, fun _ => True, fun _ => True, (· ≠ .jobLaunchComplete), fun _ => False⟩

theorem Scope.covers.completionsBy_eq_zero {ns : String} {o : Op} (h : (callerScope ns).covers o)
    (r : Ans o) : completionsBy o r = 0 := by
  cases o with
  | publish m =>
    have hne : m.subject ≠ .jobLaunchComplete := by
      intro hsubject
      have hspecial := h.special
      rw [hsubject] at hspecial
      exact hspecial rfl rfl
    cases r with
    | ok _ => simp [completionsBy, Msg.completesLaunch, hne]
    | error e => rfl
  | _ => rfl

/-- The account of a handler: the completions it has published, and whether it has logged a fatal
traversal. -/
def completionDiscipline (ns : String) : Discipline Op Ans (Nat × Bool) where
  may _ _ := True
  step l o r l' := (callerScope ns).answers o r ∧
    l' = (l.1 + completionsBy o r, l.2 || o.logsError fatalTraversal)

/-- A handler that has returned without error has published two completions, or logged a fatal
traversal. -/
def Accounted (l : Nat × Bool) (r : Except Err Unit) : Prop := r = .ok () → l.1 = 2 ∨ l.2 = true

variable {ns : String} {α β : Type} {n : Nat} {b : Bool} {lib : Lib}

variable {M : α → Prop} {E : Err → Prop} {x : Act α}

/-- A program that completes nothing leaves the account as it is. -/
theorem keeps_of_yields (hx : Yields (callerScope ns).discipline M x E) :
    (completionDiscipline ns).Keeps (fun l r => l.1 = n ∧ Meets M E r) (n, b) x.run := by
  refine Ensures.embed (fun _ _ => trivial) ?_ hx rfl
  rintro l o r l' rfl hmay ⟨hanswers, rfl⟩
  refine ⟨hanswers, ?_⟩
  simp [Scope.covers.completionsBy_eq_zero hmay r]

variable {k : α → Act Unit}

/-- A step that completes nothing, with what is known of its result. -/
theorem Accounted.bind (hx : Yields (callerScope ns).discipline M x E)
    (hk : ∀ a b, M a → (completionDiscipline ns).Keeps Accounted (n, b) (k a).run) :
    (completionDiscipline ns).Keeps Accounted (n, b) (x >>= k).run := by
  refine keeps_seq.2 ((keeps_of_yields hx).mono ?_)
  rintro ⟨_, b'⟩ r ⟨rfl, hr⟩
  cases r with
  | ok a => exact hk a b' hr
  | error e => exact nofun

theorem Accounted.quiet (hx : Local (callerScope ns) x)
    (hk : ∀ a b, (completionDiscipline ns).Keeps Accounted (n, b) (k a).run) :
    (completionDiscipline ns).Keeps Accounted (n, b) (x >>= k).run :=
  Accounted.bind hx fun a b _ => hk a b

/-- The publication of a completion is one. -/
theorem keeps_publishCompletion (job : WorkflowState) :
    (completionDiscipline ns).Keeps (fun l r => ∀ j, r = .ok j → l.1 = n + 1) (n, b)
      (publishWorkflowState ns .jobLaunchComplete job).run := by
  refine keeps_seq.2 (keeps_bind.2 (keeps_call.2 ⟨trivial, ?_⟩))
  rintro t _ ⟨-, rfl⟩
  refine keeps_ret.2 (keeps_ret.2 (keeps_seq.2 (keeps_bind.2 (keeps_call.2 ⟨trivial, ?_⟩))))
  rintro r _ ⟨-, rfl⟩
  cases r with
  | ok _ =>
    refine keeps_ret.2 (keeps_ret.2 (keeps_run_ite.2 ⟨fun h => (by cases h), fun _ => ?_⟩))
    exact keeps_pure.2 fun _ _ => by simp [completionsBy, Msg.completesLaunch]
  | error e => exact keeps_ret.2 (keeps_ret.2 fun _ h => by cases h)

/-! ### The handler of a completed activity -/

/-- The states are of the same token, in the same place. -/
structure WorkflowState.SameToken (state state' : WorkflowState) : Prop where
  elementType : state'.elementType = state.elementType
  id : state'.id = state.id
  executionId : state'.executionId = state.executionId

variable {state : WorkflowState}

theorem yields_openGateway {targets : GoMap String} {reciprocalId iid : String} :
    Yields (callerScope ns).discipline state.SameToken
      (openGateway ns state.leaving targets reciprocalId iid) := by
  unfold openGateway
  split
  · exact yields_pure ⟨rfl, rfl, rfl⟩
  · exact (yields_mapOrder trivial).andThen fun _ => (yields_kvsFor rfl).wrap.andThen fun _ =>
      Yields.andThen (Yields.wrap (yields_saveObj ⟨rfl, nofun⟩)) fun _ =>
        yields_pure ⟨rfl, rfl, rfl⟩

variable {outbound : Option Targets}

/-- The token leaves its activity as it was. -/
theorem yields_traverse {trackingID : TrackingID} {el : GoMap Element} :
    Yields (callerScope ns).discipline state.SameToken
      (traverse lib ns trackingID outbound el state) := by
  cases outbound with
  | none => exact yields_pure ⟨rfl, rfl, rfl⟩
  | some outbound =>
    refine (yields_deref trivial _).andThen fun _ => (yields_ofExcept _).andThen fun _ => ?_
    refine (yields_deref trivial _).andThen fun _ => (yields_deref trivial _).andThen fun _ => ?_
    refine (yields_newId trivial).andThen fun _ => yields_openGateway.seq fun state' hstate' => ?_
    refine (yields_mapOrder trivial).andThen fun _ => ?_
    exact (Yields.forM fun _ _ => local_sendBranch).loose.andThen fun _ => yields_pure hstate'

variable {jobID : String} {alive : Option ProcessInstance}

open Accounted Yields

/-- If the job of the caller is found, its completion has been published once. -/
theorem keeps_completeCaller : (completionDiscipline ns).Keeps
      (fun l r => ∀ j, r = .ok j → j ≠ none → l.1 = 1) (0, b)
      (completeCaller ns state jobID).run := by
  have hget : Local (callerScope ns) (Act.wrap "activity complete processor failed to get job"
      (Act.optional [.jobNotFound] (getJob ns jobID))) :=
    wrap (local_optional local_getJob)
  refine keeps_seq.2 ((keeps_of_yields hget).mono ?_)
  rintro ⟨_, b'⟩ r ⟨rfl, -⟩
  rcases r with e | _ | j
  · exact fun _ h => by cases h
  · exact keeps_ret.2 (by simp)
  · refine keeps_seq.2 (keeps_bind.2 ((keeps_publishCompletion _).mono ?_))
    rintro l r hr
    cases r with
    | ok a => exact keeps_ret.2 (keeps_ret.2 fun _ _ _ => hr a rfl)
    | error e => exact keeps_ret.2 fun _ h => by cases h

theorem accounted_leaveCalledProcess : (completionDiscipline ns).Keeps Accounted (0, b)
      (leaveCalledProcess ns state jobID alive).run := by
  refine keeps_seq.2 (keeps_completeCaller.mono ?_)
  rintro ⟨n, b⟩ r hn
  cases r with
  | error e => exact fun h => by cases h
  | ok j =>
    refine quiet (wrap (local_optional local_deleteJob)) fun _ _ => ?_
    refine quiet (mapError (local_optional local_getExecution) fun _ _ => fine_text _) fun _ _ => ?_
    refine quiet (local_destroyAlive ⟨fun _ _ => trivial, fun _ => trivial, by rintro ⟨⟩⟩)
      fun _ _ => ?_
    cases j with
    | none => exact keeps_call.2 ⟨trivial, fun r => r.elim⟩
    | some j =>
      obtain rfl : n = 1 := hn _ rfl (by simp)
      refine keeps_seq.2 (keeps_ret.2 (keeps_seq.2 (keeps_bind.2
        ((keeps_publishCompletion j).mono fun l r hr => ?_))))
      cases r with
      | ok a => exact keeps_ret.2 (keeps_ret.2 fun _ => .inl (hr a rfl))
      | error e => exact keeps_ret.2 fun h => by cases h

/-- The token is at the end of a process that was called, and has not been made obsolete. -/
structure WorkflowState.AtCalledEnd (state : WorkflowState) : Prop where
  ends : state.elementType = .endEvent ∨ state.elementType = .compensateEndEvent
  deep : state.id.length > 2
  called : TrackingID.ancestor state.id 2 ≠ state.executionId
  active : state.state ≠ .obsolete

theorem accounted_leaveProcess {state' : WorkflowState}
    (h : state.AtCalledEnd) (hsame : state.SameToken state') :
    (completionDiscipline ns).Keeps Accounted (0, b) (leaveProcess ns state' alive).run := by
  obtain ⟨htype, hid, hexecution⟩ := hsame
  rw [leaveProcess, htype, hid, hexecution, if_pos ⟨h.ends, h.deep, h.called⟩]
  exact accounted_leaveCalledProcess

variable {els : GoMap Element}

theorem accounted_traverseCompleted (h : state.AtCalledEnd) :
    (completionDiscipline ns).Keeps Accounted (0, b)
      (traverseCompleted lib ns state outbound els alive).run := by
  refine keeps_seq.2 (keeps_bind.2 ((keeps_of_yields yields_traverse).mono ?_))
  rintro ⟨_, b'⟩ r ⟨rfl, hr⟩
  refine keeps_ret.2 ?_
  cases r with
  | ok state' => exact accounted_leaveProcess h hr
  | error e =>
    refine keeps_run_ite.2 ⟨fun _ => ?_, fun _ => keeps_throw.2 fun h => by cases h⟩
    refine keeps_bind.2 (keeps_call.2 ⟨trivial, ?_⟩)
    rintro r _ ⟨-, rfl⟩
    exact keeps_ret.2 (keeps_ret.2 fun _ => .inr (by simp [Op.logsError, fatalTraversal]))

/-- **The account of the handler**: it returns with two completions, or after a fatal traversal. -/
theorem accounted_activityCompleteProcessor (h : state.AtCalledEnd) :
    (completionDiscipline ns).Keeps Accounted (0, false)
      (activityCompleteProcessor lib ns state).run := by
  refine quiet (wrap (local_optional local_getProcessHistoryItem)) fun _ _ =>
    quiet local_recordedState fun _ _ => ?_
  refine keeps_run_ite.2 ⟨fun hobsolete => absurd hobsolete.2 h.active, fun _ => ?_⟩
  refine quiet (wrap (local_optional local_getProcessInstance)) fun alive _ => ?_
  refine quiet (wrap local_getWorkflow) fun _ _ => quiet (local_deref _) fun _ _ => ?_
  refine quiet local_outboundOf fun _ _ => ?_
  cases alive with
  | none => exact accounted_leaveProcess h ⟨rfl, rfl, rfl⟩
  | some pi => exact accounted_traverseCompleted h

/-! ### Interleavings -/

/-- A call of the handler logs a fatal traversal. -/
def LoggedFatalTraversal {J : Type} (t : List (Event (Option J) Op Ans World)) : Prop :=
  ∃ e ∈ t, e.thread = none ∧ e.op.logsError fatalTraversal = true

/-- The invariant of the interleavings: only the handler `none` of the end event publishes
completions, and its account is right. -/
structure Booked {J : Type} (w : World) (s : World) (t : List (Event (Option J) Op Ans World))
    (g : Option J → Nat × Bool) : Prop where
  completions : launchCompletions s = launchCompletions w + (g none).1
  others : ∀ j, (g (some j)).1 = 0
  logged : (g none).2 = true → LoggedFatalTraversal t

/-- The protocol of a handler next to the handlers of jobs. -/
def completionProtocol (J : Type) (F : Op → Prop) (w : World) :
    Protocol (Option J) Op Ans World (Nat × Bool) where
  env := env F
  allowed _ := True
  guard _ _ := True
  inv := Booked w
  rely _ _ := True
  rely_refl _ := trivial
  rely_trans _ _ := trivial
  rely_env _ := trivial

/-- The program of a thread: the handler of the end event, or the handler of a completed job. -/
def completionThreads {J : Type} (lib : Lib) (ns : String) (state : WorkflowState)
    (jobs : J → WorkflowState) : Option J → P (Except Err Unit)
  | none => (activityCompleteProcessor lib ns state).run
  | some j => (completeJobProcessor lib ns (jobs j)).run

section Interleavings

variable {J : Type} [DecidableEq J] {F : Op → Prop} {w : World}

/-- The handler of the end event books what it publishes and logs. -/
theorem governs_handler : (completionDiscipline ns).Governs (completionProtocol J F w) none where
  allowed _ := trivial
  restores := by
    intro o s t g r s' _ hinv henv _
    refine ⟨_, ⟨answers_of_env (fun _ h => h.elim) henv, rfl⟩, ?_⟩
    constructor
    · rw [launchCompletions_of_env henv, hinv.completions, Function.update_self, Nat.add_assoc]
    · intro j
      rw [Function.update_of_ne (by simp)]
      exact hinv.others j
    · intro h
      rw [Function.update_self, Bool.or_eq_true] at h
      rcases h with h | h
      · obtain ⟨e, he, hlogged⟩ := hinv.logged h
        exact ⟨e, List.mem_cons_of_mem _ he, hlogged⟩
      · exact ⟨_, List.mem_cons_self, rfl, h⟩

/-- The handler of a job completes nothing, so that the account stays as it is. -/
theorem safe_other {p : P (Except Err Unit)} {s : World} {Q : Except Err Unit → Prop} (j : J)
    (h : (callerScope ns).Within Q p) :
    (completionProtocol J F w).Safe (some j) (fun _ _ _ => True) (0, false) s p := by
  refine ⟨fun l _ p => l = (0, false) ∧ (callerScope ns).Within Q p, ?_, rfl, h⟩
  rintro l s p ⟨rfl, hp⟩
  have hprogress := Keeps.progress hp
  cases p with
  | ret a => trivial
  | call o k =>
    refine ⟨trivial, fun s t g hinv hg _ r s' henv _ => ⟨(0, false), ?_, rfl, ?_⟩⟩
    · rw [← hg, Function.update_eq_self]
      refine ⟨?_, hinv.others, fun h => ?_⟩
      · have hquiet : completionsBy o r = 0 :=
          Scope.covers.completionsBy_eq_zero hprogress.1 r
        rw [launchCompletions_of_env henv, hquiet]
        exact hinv.completions
      · obtain ⟨e, he, hlogged⟩ := hinv.logged h
        exact ⟨e, List.mem_cons_of_mem _ he, hlogged⟩
    · exact hprogress.2 r () (answers_of_env (fun _ h => h.elim) henv)
  | loop x body k => exact ⟨rfl, hprogress⟩

/-- **In every interleaving** in which the handler of the end event has returned, two completions
have been published, unless it has logged a fatal traversal. -/
theorem completions_of_run (h : state.AtCalledEnd)
    (jobs : J → WorkflowState) {c : Config (Option J) Op Ans World (Except Err Unit)}
    (hrun : Run (env F) (.start w (completionThreads lib ns state jobs)) c)
    (hreturned : c.threads none = .ret (.ok ())) :
    launchCompletions c.state = launchCompletions w + 2 ∨ LoggedFatalTraversal c.trace := by
  have hnone : Booked w w ([] : List (Event (Option J) Op Ans World)) fun _ => (0, false) :=
    ⟨rfl, fun _ => rfl, nofun⟩
  have hstart : (completionProtocol J F w).Sound
      (fun i l _ r => i = none → Accounted l r)
      (.start w (completionThreads lib ns state jobs)) fun _ => (0, false) := by
    refine Protocol.sound_start hnone fun i => ?_
    cases i with
    | none =>
      exact (Keeps.safe governs_handler (accounted_activityCompleteProcessor h)).mono
        fun _ _ _ hr _ => hr
    | some j => exact (safe_other j (local_completeJobProcessor
      (lib.tame_of_fatal (S := callerScope ns) nofun))).mono fun _ _ _ _ h => nomatch h
  obtain ⟨g, hsound⟩ := Protocol.sound_of_run hstart hrun (guarded_true _)
  obtain ⟨_, -, hresult⟩ := hsound.result hreturned
  rcases hresult rfl rfl with htwo | hlogged
  · left
    rw [hsound.inv.completions, htwo]
  · exact .inr (hsound.inv.logged hlogged)

end Interleavings

/-! ### The handler alone -/

section Alone

variable {w : World}

/-- The program returns, and `n` completions have been published. -/
def Completes (n : Nat) (w w' : World) (r : Except Err Unit) : Prop :=
  r = .ok () ∧ launchCompletions w' = launchCompletions w + n

@[simp]
theorem launchCompletions_publish (w : World) (m : Msg) :
    launchCompletions (w.publish m) = launchCompletions w + if m.completesLaunch then 1 else 0 := by
  simp [launchCompletions, List.countP_cons]

@[simp]
theorem launchCompletions_put (w : World) (l : Loc) (v : l.Val) :
    launchCompletions (w.put l v) = launchCompletions w := rfl

@[simp]
theorem launchCompletions_clear (w : World) (l : Loc) :
    launchCompletions (w.clear l) = launchCompletions w := rfl

/-- An update that cannot fail goes through. -/
theorem ends_updateObjMsg_ok {l : Loc} {msg : l.Val} (f : l.Val → l.Val) :
    Ends (env noFault) False
      (fun w' r => r.1 = .ok () ∧ launchCompletions w' = launchCompletions w) w
      (updateObjMsg l msg fun v => .ok (f v)) := by
  rw [ends_updateObjMsg]
  refine ⟨fun _ => ⟨?_, nofun⟩, fun hthere => ?_⟩
  · simp
  · simp only [noFault_iff, or_false] at hthere
    simp [hthere]

theorem ends_destroyProcessInstance {pi ex : String} :
    Ends (env noFault) False (Completes 0 w) w
      (destroyProcessInstance ns state pi ex).run := by
  refine ends_seq.2 (ends_nsKVs.2 ⟨?_, nofun⟩)
  refine ends_seq.2 (ends_liftM.2 ((ends_updateObjMsg_ok _).mono ?_))
  rintro w' ⟨_, e⟩ ⟨rfl, hw'⟩
  by_cases he : e.processInstanceId.length = 0
  all_goals simp [he, ends_publishWorkflowState, Completes, Msg.completesLaunch, hw']

/-- The publication of a completion. -/
theorem ends_publishCompletion (job : WorkflowState) :
    Ends (env noFault) False (fun w' r => (∃ j, r = .ok j) ∧
      launchCompletions w' = launchCompletions w + 1 ∧ ∀ l, w'.value l = w.value l) w
      (publishWorkflowState ns .jobLaunchComplete job).run := by
  simp [ends_publishWorkflowState, Msg.completesLaunch]

theorem ends_deleteJob :
    Ends (env noFault) False (fun w' r => r = .ok () ∧ w' = w.clear ⟨ns, .job, jobID⟩) w
      (deleteJob ns jobID).run := by
  simp [deleteJob]

/-- The end of a called process whose caller and execution are there. -/
theorem ends_leaveCalledProcess {j : WorkflowState} {pi : ProcessInstance}
    {ex : Execution} (hjob : w.value ⟨ns, .job, jobID⟩ = some j)
    (hexecution : w.value ⟨ns, .wfExecution, state.executionId⟩ = some ex) :
    Ends (env noFault) False (Completes 2 w) w
      (leaveCalledProcess ns state jobID (some pi)).run := by
  have hget : Ends (env noFault) False (fun w' r => w = w' ∧ r = .ok j) w
      (getJob ns jobID).run := by
    refine (ends_loadFor ⟨ns, .job, jobID⟩).2 ?_
    simp [hjob]
  refine ends_seq.2 (ends_seq.2 (ends_wrap.2 (ends_optional.2 (hget.mono ?_))))
  rintro _ _ ⟨rfl, rfl⟩
  refine ends_seq.2 (ends_wrap.2 ((ends_publishCompletion _).mono ?_))
  rintro w₁ _ ⟨⟨j', rfl⟩, hfirst, hvalue⟩
  refine ends_pure.2 (ends_seq.2 (ends_wrap.2 (ends_optional.2 (ends_deleteJob.mono ?_))))
  rintro w₂ _ ⟨rfl, rfl⟩
  have hthere : (w₁.clear ⟨ns, .job, jobID⟩).value ⟨ns, .wfExecution, state.executionId⟩ =
      some ex := by
    rw [clear_value_of_ne _ (by simp), hvalue, hexecution]
  refine ends_seq.2 (ends_mapError.2 (ends_optional.2 ((ends_loadFor ⟨_, .wfExecution, _⟩).2 ?_)))
  simp only [hthere, reduceCtorEq, false_imp_iff, true_and, noFault_iff, and_true]
  rintro v ⟨⟩
  refine ends_seq.2 (ends_seq.2 (ends_pure.2 (ends_seq.2 (ends_wrap.2 (ends_optional.2
    (ends_destroyProcessInstance.mono ?_))))))
  rintro w₃ _ ⟨rfl, hdestroyed⟩
  refine ends_pure.2 (ends_seq.2 (ends_pure.2 (ends_seq.2 (ends_wrap.2
    ((ends_publishCompletion _).mono ?_)))))
  rintro w₄ _ ⟨⟨j'', rfl⟩, hsecond, -⟩
  refine ends_pure.2 ⟨rfl, ?_⟩
  rw [hsecond, hdestroyed, launchCompletions_clear, hfirst]

end Alone

/-- The token of a called process has reached its end event, from which no sequence flow leaves. The
process instance and its execution are alive, and the job of the caller is there. -/
structure ChildEnd (w : World) (ns : String) (state : WorkflowState) : Prop
    extends state.AtCalledEnd where
  caller : w.value ⟨ns, .job, TrackingID.ancestor state.id 2⟩ ≠ none
  alive : w.value ⟨ns, .wfProcessInstance, state.processInstanceId⟩ ≠ none
  running : w.value ⟨ns, .wfExecution, state.executionId⟩ ≠ none
  recorded : ∀ entry : ProcessHistoryEntry, w.value (historyLoc ns state.processInstanceId
    (TrackingID.ID state.id) .activityExecute) = some entry → entry.cancellationState ≠ none
  defined : ∃ wf el, w.Defines ns state.workflowId wf ∧
    (elementTable wf).lookup state.elementId = some el ∧ el.type = state.elementType ∧
    el.outbound = none

theorem ends_recordedState {w : World} {old : Option ProcessHistoryEntry}
    (h : ∀ entry, old = some entry → entry.cancellationState ≠ none) :
    Ends (env noFault) False (fun w' r => w = w' ∧ ∃ st, r = .ok st) w
      (recordedState old).run := by
  cases old with
  | none => exact ends_pure.2 ⟨rfl, _, rfl⟩
  | some entry =>
    obtain ⟨st, hst⟩ := Option.ne_none_iff_exists'.1 (h entry rfl)
    simp [recordedState, hst]

theorem outboundOf_end {el : Element} (h : el.type = .endEvent ∨ el.type = .compensateEndEvent) :
    outboundOf els el = return el.outbound := by
  rcases h with h | h <;> simp [outboundOf, h]

/-- **Alone, the handler of the end event returns**, and has published two completions. -/
theorem ChildEnd.completes {w : World} (h : ChildEnd w ns state) :
    Ends (env noFault) False (Completes 2 w) w
      (activityCompleteProcessor lib ns state).run := by
  obtain ⟨wf, el, hdefines, hel, htype, houtbound⟩ := h.defined
  obtain ⟨j, hjob⟩ := Option.ne_none_iff_exists'.1 h.caller
  obtain ⟨pi, hpi⟩ := Option.ne_none_iff_exists'.1 h.alive
  obtain ⟨ex, hexecution⟩ := Option.ne_none_iff_exists'.1 h.running
  refine ends_seq.2 (Ends.mono (Q := fun w' r => w = w' ∧ ∃ old, r = .ok old ∧
    ∀ entry, old = some entry → entry.cancellationState ≠ none) ?_ ?_)
  · refine ends_wrap.2 (ends_optional.2 (ends_getProcessHistoryItem.2
      ⟨fun _ => ?_, ?_, fun hfault => hfault.elim, fun hfault => hfault.elim⟩))
    · exact ⟨rfl, none, rfl, fun _ hnone => (by cases hnone)⟩
    · rintro entry hentry
      refine ⟨rfl, some entry, rfl, ?_⟩
      rintro _ ⟨⟩
      exact h.recorded entry hentry
  rintro _ _ ⟨rfl, old, rfl, hrecorded⟩
  refine ends_seq.2 ((ends_recordedState hrecorded).mono ?_)
  rintro _ _ ⟨rfl, st, rfl⟩
  refine ends_run_ite.2 ⟨fun hobsolete => absurd hobsolete.2 h.active, fun _ => ?_⟩
  refine ends_seq.2 (Ends.mono (Q := fun w' r => w = w' ∧ r = .ok (some pi)) ?_ ?_)
  · simp [hpi, optionalResult, getProcessInstance, ends_loadFor ⟨_, .wfProcessInstance, _⟩]
  rintro _ _ ⟨rfl, rfl⟩
  refine ends_seq.2 (ends_wrap.2 (Ends.getWorkflow hdefines fun c _ => ?_))
  refine ends_seq.2 (ends_deref.2 ⟨fun hnone => by simp [hel] at hnone, ?_⟩)
  intro el' hel'
  obtain rfl : el = el' := Option.mem_unique hel hel'
  dsimp only
  rw [outboundOf_end (htype ▸ h.ends), houtbound]
  refine ends_seq.2 (ends_pure.2 (ends_seq.2 (ends_attempt.2 (ends_pure.2 ?_))))
  have hleaves : leaveProcess ns state.leaving (some pi) =
      leaveCalledProcess ns state.leaving (TrackingID.ancestor state.id 2) (some pi) :=
    if_pos ⟨h.ends, h.deep, h.called⟩
  dsimp only
  rw [hleaves]
  exact ends_leaveCalledProcess (w := w.withCache c) hjob hexecution

/-! ### The completion of the caller -/

/-- **The completion is published twice.** Some interleaving of the handling of the end event of a
called process with that of completed jobs ends with two completions published, and so does every
one in which the handler returns, unless a fatal traversal was logged. -/
theorem launch_complete_published_twice {J : Type} [DecidableEq J] (lib : Lib) (ns : String)
    (state : WorkflowState) (jobs : J → WorkflowState) (w : World) (h : ChildEnd w ns state) :
    (∃ c, Run (env noFault) (.start w (completionThreads lib ns state jobs)) c ∧
      c.threads none = .ret (.ok ()) ∧ launchCompletions c.state = launchCompletions w + 2) ∧
    ∀ F c, Run (env F) (.start w (completionThreads lib ns state jobs)) c →
      c.threads none = .ret (.ok ()) → ¬ LoggedFatalTraversal c.trace →
      launchCompletions c.state = launchCompletions w + 2 := by
  constructor
  · have hends : Ends (env noFault) False (Completes 2 w) w
        (activityCompleteProcessor lib ns state).run := h.completes
    obtain ⟨w', r, hexec, rfl, htwo⟩ := hends.can
    obtain ⟨t, hrun⟩ := Exec.run (c := .start w (completionThreads lib ns state jobs))
      (i := none) hexec
    exact ⟨_, hrun, by simp, htwo⟩
  · intro F c hrun hreturned hquiet
    exact (completions_of_run h.toAtCalledEnd jobs hrun hreturned).resolve_right hquiet

/-! ### A caller and its called process -/

/-- The call activity of the caller, and the end event of the called process. -/
def callWorkflow : Workflow where
  process := (AList.singleton "parent" ({ id := "parent", elements := [
      { id := "call", type := .callActivity, execute := "child" }] } : Process)).insert "child"
    { id := "child", elements := [{ id := "end", type := .endEvent }] }

/-- The job of the call activity. -/
def callJob : WorkflowState where
  workflowId := "workflow"
  executionId := "execution"
  processId := "parent"
  processInstanceId := "parent-instance"
  elementId := "call"
  elementType := .callActivity
  id := ["parent-instance", "activity", "job"]

/-- The token of the called process at its end event. -/
def childToken : WorkflowState where
  workflowId := "workflow"
  executionId := "execution"
  processId := "child"
  processInstanceId := "child-instance"
  elementId := "end"
  elementType := .endEvent
  state := .executing
  id := ["parent-instance", "activity", "job", "child-instance", "token"]

/-- The activity of the caller, as it is recorded. -/
def callEntry : ProcessHistoryEntry where
  itemType := .activityExecute
  workflowId := some "workflow"
  executionId := some "execution"
  elementId := some "call"
  processInstanceId := some "parent-instance"
  cancellationState := some .executing
  id := ["parent-instance", "activity"]

/-- The world when the called process has come to its end. -/
def callWorld : World :=
  (((((({} : World).put ⟨"default", .wfExecution, "execution"⟩
    { executionId := "execution", workflowId := "workflow",
      processInstanceId := ["parent-instance", "child-instance"] }).put
    ⟨"default", .wfProcessInstance, "parent-instance"⟩
    { processInstanceId := "parent-instance", executionId := "execution",
      workflowId := "workflow" }).put
    ⟨"default", .wfProcessInstance, "child-instance"⟩
    { processInstanceId := "child-instance", executionId := "execution", workflowId := "workflow",
      parentProcessId := some "parent-instance" }).put
    ⟨"default", .wf, "workflow"⟩ callWorkflow).put ⟨"default", .job, "job"⟩ callJob).put
    (historyLoc "default" "parent-instance" "activity" .activityExecute) callEntry

theorem callWorld_childEnd : ChildEnd callWorld "default" childToken where
  ends := .inl rfl
  deep := by decide
  called := by decide
  active := by decide
  caller := by decide +kernel
  alive := by decide +kernel
  running := by decide +kernel
  recorded := by
    intro entry hentry
    have hnone : callWorld.value (historyLoc "default" "child-instance" "token"
      .activityExecute) = none := by decide +kernel
    exact absurd (hnone.symm.trans hentry) (Option.some_ne_none entry).symm
  defined := ⟨callWorkflow, { id := "end", type := .endEvent },
    ⟨by simp [callWorld, childToken], .inl rfl⟩, rfl, rfl, rfl⟩

/-- The handler of the end event with the handling of both completions that it publishes. -/
theorem launch_complete_published_twice_call : (∃ c, Run (env noFault) (.start callWorld
        (completionThreads (constLib ∅) "default" childToken fun _ : Bool => callJob)) c ∧
      c.threads none = .ret (.ok ()) ∧
      launchCompletions c.state = launchCompletions callWorld + 2) ∧
    ∀ F c, Run (env F) (.start callWorld
        (completionThreads (constLib ∅) "default" childToken fun _ : Bool => callJob)) c →
      c.threads none = .ret (.ok ()) → ¬ LoggedFatalTraversal c.trace →
      launchCompletions c.state = launchCompletions callWorld + 2 :=
  launch_complete_published_twice (constLib ∅) "default" childToken (fun _ : Bool => callJob)
    callWorld callWorld_childEnd

/-- The activity of the caller is published as complete. -/
def Msg.completesCall : Msg → Bool
  | ⟨_, .activityComplete, .state state, _⟩ => state.elementId = "call"
  | _ => false

/-- **The activity of the caller completes twice**: the end event of the called process is handled,
and then both completions of the job that it has published. -/
theorem call_activity_completes_twice : ∃ c, Run (env noFault) (.start callWorld
        (completionThreads (constLib ∅) "default" childToken fun _ : Bool => callJob)) c ∧
      (∀ i, c.threads i = .ret (.ok ())) ∧
      launchCompletions callWorld = 0 ∧ launchCompletions c.state = 2 ∧
      c.state.log.countP Msg.completesCall = 2 := by
  exact exists_run_of_reaches noFault _ (List.replicate 26 (none, .ok) ++
    List.replicate 18 (some false, .ok) ++ List.replicate 18 (some true, .ok)) _ (by decide +kernel)

end SharWorkflow
