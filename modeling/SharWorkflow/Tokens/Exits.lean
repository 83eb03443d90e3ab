import SharWorkflow.Engine.Endings

/-!
# The ways out of an activity

An activity with a job, boundary timers and error boundary events can be left in three ways: its job
completes, a timer fires, or the job reports an error that a boundary event catches. Each is a
handler of its own, and the handlers run side by side. All they share is the record of the activity
in the history: each looks it up, and sends the token on if it is there. Nothing removes the record
while the process instance is alive.

* `Exit`: one of these handler runs, perhaps a repeated one.
* `Exclusive`: at most one of the runs looks up the record while it is there.
* `activity_continued_once`: in the runs that meet this condition **at most one handler run sends
  the token on**.
* `activity_continued_twice`: a timer and a caught error both send the token on.
-/

namespace SharWorkflow

open Concurrent Protocol Discipline World

-- sequences are split by `keeps_seq`
attribute [-simp] ExceptT.run_bind

/-- A handler run by which the token of an activity may go on. -/
inductive Exit
  | completion (job : WorkflowState)
  | timer (state : WorkflowState)
  | error (errorCode : String) (vars : Bytes) (job : WorkflowState)

namespace Exit

/-- The run is one for the given activity: for a job of it, or for one of its timers. -/
def Of (activity : WorkflowState) : Exit → Prop
  | completion job => ∃ tid, StartedFrom activity job tid
  | timer state =>
    state.id = activity.id ∧ state.processInstanceId = activity.processInstanceId
  | error _ _ job => ∃ tid, StartedFrom activity job tid

/-- The handler of the run. -/
def run (lib : Lib) (listenerNs ns : String) : Exit → P Unit
  | completion job => (completeJobProcessor lib ns job).run.bind fun _ => .ret ()
  | timer state => (boundaryTimerFired lib listenerNs ns state).run.bind fun _ => .ret ()
  | error errorCode vars job =>
    (handleWorkflowError lib ns errorCode vars job).run.bind fun _ => .ret ()

end Exit

/-- The record of an activity in the history. -/
abbrev recordLoc (ns : String) (activity : WorkflowState) : Loc :=
  historyLoc ns activity.processInstanceId (TrackingID.ID activity.id) .activityExecute

/-! ### The condition -/

section Condition

variable {ι : Type}

/-- The call looks up an object that is there. -/
def looksUp (loc : Loc) (e : WEvent ι) : Bool := isReadAt loc e.op && (e.before.value loc).isSome

/-- The call sends a token on: it publishes a traversal, or the completion of an activity, which is
traversed when it is handled. -/
def continues (e : WEvent ι) : Bool :=
  (sentState .traversalExecute e.op e.answer).isSome ||
    (sentState .activityComplete e.op e.answer).isSome

/-- The run `i` has sent the token on. -/
def Continued (i : ι) (t : List (WEvent ι)) : Prop := ∃ e ∈ t, e.thread = i ∧ continues e = true

/-- The run `i` has looked up an object that was there. -/
def LookedUp (loc : Loc) (i : ι) (t : List (WEvent ι)) : Prop :=
  ∃ e ∈ t, e.thread = i ∧ looksUp loc e = true

/-- **At most one run looks up the object** while it is there. -/
def Exclusive (loc : Loc) (e : WEvent ι) (t : List (WEvent ι)) : Prop :=
  looksUp loc e = true → ∀ e' ∈ t, looksUp loc e' = true → e'.thread = e.thread

instance [DecidableEq ι] (loc : Loc) (e : WEvent ι) (t : List (WEvent ι)) :
    Decidable (Exclusive loc e t) :=
  inferInstanceAs (Decidable (_ → _))

end Condition

/-! ### What the handlers do -/

/-- A token is sent on only after the object at `loc` has been looked up. -/
@[simps]
def exitConduct (loc : Loc) : Conduct Bool where
  mayPublish l m := m.subject = .traversalExecute ∨ m.subject = .activityComplete → l = true
  noted l loc' := l || loc' = loc

namespace Exit

open Conduct

variable {lib : Lib} {listenerNs ns : String} {activity : WorkflowState} {l : Bool}

theorem endsQuietly : (exitConduct (recordLoc ns activity)).EndsQuietly ns where
  failed _ := rfl
  execution id := ⟨fun _ _ => trivial, fun _ => rfl, fun l => by simp⟩
  noted_instance l id := by simp
  noted_workflow l id := by simp
  mayDelete _ _ := trivial
  deleted _ _ := rfl
  mayPublish l m hm hcontinues := by
    rcases hcontinues with h | h <;> simp [h, Subject.isEnding] at hm
  published _ _ _ := rfl

theorem leads_completeJobProcessor {job : WorkflowState} {tid : String}
    (hjob : StartedFrom activity job tid) :
    (exitConduct (recordLoc ns activity)).Leads (fun _ _ => True) (fun _ => True) l
      (completeJobProcessor lib ns job) := by
  simp [completeJobProcessor, hjob.id, hjob.processInstanceId, engineErr, finishJob,
    workfFlowStateFrom, completeActivity, recordHistoryJobComplete, recordHistoryActivityComplete,
    deleteJob, stateMsg, outcome_iff, getProcessInstance, keeps_loadFor ⟨_, .wfProcessInstance, _⟩]

theorem leads_sendBranches {trackingID : TrackingID} {el : GoMap Element} {targets : GoMap String}
    {state : WorkflowState} {reciprocalId iid : String} {branches : List String} {loc : Loc}
    {R : Bool → Unit → Prop} (hR : R true ()) : (exitConduct loc).Leads R (fun _ => True) true
      (sendBranches ns trackingID el targets state reciprocalId iid branches) := by
  refine Keeps.forM (fun _ l => l = true) branches rfl ?_ fun l hl => hl ▸ hR
  rintro branch branches l rfl
  simp [sendBranch]

theorem leads_boundaryTimerFired {state : WorkflowState} (hid : state.id = activity.id)
    (hpi : state.processInstanceId = activity.processInstanceId) :
    (exitConduct (recordLoc ns activity)).Leads (fun _ _ => True) (fun _ => True) l
      (boundaryTimerFired lib listenerNs ns state) := by
  have htraverse : ∀ {R : Bool → WorkflowState → Prop} target wf, (∀ st, R true st) →
      (exitConduct (recordLoc ns activity)).Leads R (fun _ => True) true
        (traverse lib ns (TrackingID.pop activity.id) (some (timerTargets target))
          (elementTable wf) state) := by
    intro R target wf hR
    refine leads_traverse nofun (fun _ => trivial) ?_ trivial fun _ => trivial
    intro out targets elem reciprocalId iid st branches _ _ _ _ _ _ _
    rw [opened_eq rfl]
    exact leads_sendBranches (hR st)
  simp [boundaryTimerFired, hasValidExecution, timerInstance, hid, hpi, getExecution,
    getProcessInstance, keeps_loadFor ⟨_, .wfExecution, _⟩,
    keeps_loadFor ⟨_, .wfProcessInstance, _⟩]
  exact fun wf target _ => htraverse target wf fun st => by simp [stateMsg]

theorem leads_handleWorkflowError {errorCode : String} {vars : Bytes} {job : WorkflowState}
    {tid : String} (hjob : StartedFrom activity job tid) :
    (exitConduct (recordLoc ns activity)).Leads (fun _ _ => True) (fun _ => True) l
      (handleWorkflowError lib ns errorCode vars job) := by
  have hredirect : ∀ wf caught, (exitConduct (recordLoc ns activity)).Leads (fun _ _ => True)
      (fun _ => True) l (redirectError lib ns vars job wf caught) := by
    simp [redirectError, hjob.id, hjob.processInstanceId, stateMsg, outcome_iff]
  unfold handleWorkflowError
  simp only [leads_seq, keeps_wrap, outcome_mapError]
  refine (keeps_getWorkflow (by simp)).2 ⟨fun wf _ => ?_, fun _ => trivial,
    fun _ _ => ⟨trivial, trivial⟩⟩
  refine keeps_run_ite.2 ⟨fun _ => ?_, fun _ => leads_haltWorkflow endsQuietly trivial⟩
  refine leads_seq.2 (keeps_deref.2 fun el _ => leads_seq.2 (keeps_deref.2 fun caught _ => ?_))
  cases caught with
  | none => exact keeps_throw.2 trivial
  | some caught => exact hredirect wf caught

/-- **Every handler looks the activity up** before it sends the token on. -/
theorem keeps_run {exit : Exit} (h : exit.Of activity) :
    (exitConduct (recordLoc ns activity)).Keeps (fun _ _ => True) l (exit.run lib listenerNs ns) :=
      by
  cases exit with
  | completion job =>
    obtain ⟨tid, hjob⟩ := h
    exact keeps_bind.2 ((leads_completeJobProcessor hjob).mono fun _ _ _ => keeps_ret.2 trivial)
  | timer state =>
    exact keeps_bind.2 ((leads_boundaryTimerFired h.1 h.2).mono fun _ _ _ => keeps_ret.2 trivial)
  | error errorCode vars job =>
    obtain ⟨tid, hjob⟩ := h
    exact keeps_bind.2 ((leads_handleWorkflowError hjob).mono fun _ _ _ => keeps_ret.2 trivial)

end Exit

/-! ### The race -/

section Race

variable {ι : Type} {loc : Loc} {t : List (WEvent ι)} {g : ι → Bool}

/-- The invariant: only runs that have looked the object up, as marked in `g`, have sent a token on,
and only one run has looked it up. -/
structure ExitInv (loc : Loc) (t : List (WEvent ι)) (g : ι → Bool) : Prop where
  lookedUp : ∀ i, g i = true → LookedUp loc i t
  continued : ∀ i, Continued i t → LookedUp loc i t
  exclusive : ∀ i j, LookedUp loc i t → LookedUp loc j t → i = j

theorem exitInv_nil : ExitInv loc ([] : List (WEvent ι)) fun _ => false where
  lookedUp _ h := absurd h (by decide)
  continued := by simp [Continued]
  exclusive := by simp [LookedUp]

/-- One step of a run. -/
theorem ExitInv.step [DecidableEq ι] {e : WEvent ι} {l : Bool} (h : ExitInv loc t g)
    (hguard : Exclusive loc e t) (hcontinues : continues e = true → g e.thread = true)
    (hl : l = true → g e.thread = true ∨ looksUp loc e = true) :
    ExitInv loc (e :: t) (Function.update g e.thread l) := by
  have hold : ∀ i, LookedUp loc i t → LookedUp loc i (e :: t) := fun i ⟨e', he', hi⟩ =>
    ⟨e', .tail _ he', hi⟩
  have hnew : ∀ i, LookedUp loc i (e :: t) →
      LookedUp loc i t ∨ i = e.thread ∧ looksUp loc e = true := by
    rintro i ⟨e', he', hi, hlooks⟩
    rcases List.mem_cons.1 he' with rfl | he'
    · exact .inr ⟨hi.symm, hlooks⟩
    · exact .inl ⟨e', he', hi, hlooks⟩
  refine ⟨fun i hi => ?_, ?_, fun i j hi hj => ?_⟩
  · by_cases hthread : i = e.thread
    · subst hthread
      rcases hl (by simpa using hi) with hg | hlooks
      · exact hold _ (h.lookedUp _ hg)
      · exact ⟨e, .head _, rfl, hlooks⟩
    · exact hold i (h.lookedUp i (by simpa [hthread] using hi))
  · rintro i ⟨e', he', rfl, hcont⟩
    rcases List.mem_cons.1 he' with rfl | he'
    · exact hold _ (h.lookedUp _ (hcontinues hcont))
    · exact hold _ (h.continued _ ⟨e', he', rfl, hcont⟩)
  · rcases hnew i hi with hi | ⟨rfl, hlooks⟩ <;> rcases hnew j hj with hj | ⟨rfl, hlooks'⟩
    · exact h.exclusive i j hi hj
    · obtain ⟨e', he', rfl, hlooks⟩ := hi
      exact hguard hlooks' e' he' hlooks
    · obtain ⟨e', he', rfl, hlooks'⟩ := hj
      exact (hguard hlooks e' he' hlooks').symm
    · rfl

/-- A step that neither looks anything up nor sends a token on. -/
theorem ExitInv.skip [DecidableEq ι] {e : WEvent ι} (h : ExitInv loc t g)
    (hguard : Exclusive loc e t) (hcontinues : continues e = false) : ExitInv loc (e :: t) g := by
  have hstep := h.step hguard (l := g e.thread) (by simp [hcontinues]) .inl
  rwa [Function.update_eq_self] at hstep

theorem continues_eq_false {e : WEvent ι}
    (h : ∀ m, e.op = .publish m → isFailure e.op e.answer = true) : continues e = false := by
  simp [continues, sentState_eq_none h]

theorem enforced_exitConduct [DecidableEq ι] {F : Op → Prop} (loc : Loc) (i : ι) :
    (exitConduct loc).Enforced F (Exclusive loc) (fun _ => ExitInv loc) i where
  holds _ _ := trivial
  absent _ _ := trivial
  defines _ _ := trivial
  allows _ _ := trivial
  faulty _ _ _ _ := trivial
  idle hinv _ hidle hguard := hinv.skip hguard (continues_eq_false fun m hm => by
    dsimp only at hm; subst hm; simp [Conduct.isIdle] at hidle)
  fail hinv _ hfailure hguard := by
    rw [exitConduct_failed, Function.update_eq_self]
    exact hinv.skip hguard (continues_eq_false fun _ _ => hfailure)
  read hinv hsome hguard := hinv.step hguard (by simp [continues, sentState]) fun hl => by
    simp at hl
    refine hl.imp_right ?_
    rintro rfl
    simp [looksUp, isReadAt, hsome]
  write {s t g loc' v o r} hinv _ hwrite hguard := by
    rw [exitConduct_wrote, Function.update_eq_self]
    refine hinv.skip hguard (continues_eq_false fun m hm => ?_)
    cases hwrite <;> cases hm
  delete hinv _ hguard := by
    rw [exitConduct_deleted, Function.update_eq_self]
    exact hinv.skip hguard rfl
  publish {s t g m} hinv hmay hguard := by
    refine hinv.step hguard (fun hcontinues => hmay ?_) .inl
    exact (Bool.or_eq_true _ _ ▸ hcontinues).imp subject_of_sentState subject_of_sentState
  cache hinv _ _ hguard := hinv.skip hguard rfl

/-- **At most one handler run sends the token of an activity on**, in every run in which at most one
of them looks up the record of the activity while it is there. Any call may fail. -/
theorem activity_continued_once [DecidableEq ι] {lib : Lib} {listenerNs ns : String}
    {activity : WorkflowState} {exits : ι → Exit} (hexits : ∀ i, (exits i).Of activity)
    {F : Op → Prop} {w : World} {c : Config ι Op Ans World Unit}
    (hrun : Run (env F) (.start w fun i => (exits i).run lib listenerNs ns) c)
    (hexclusive : Guarded (Exclusive (recordLoc ns activity)) c.trace) {i j : ι}
    (hi : Continued i c.trace) (hj : Continued j c.trace) : i = j := by
  have hstart : (natsProtocol F True (Exclusive (recordLoc ns activity))
      fun _ => ExitInv (recordLoc ns activity)).inv w ([] : List (WEvent ι)) fun _ => false :=
    exitInv_nil
  obtain ⟨g, hsound⟩ := sound_of_run (sound_start hstart fun i =>
    (Exit.keeps_run (hexits i)).safe (enforced_exitConduct _ i).governs) hrun hexclusive
  exact hsound.inv.exclusive i j (hsound.inv.continued i hi) (hsound.inv.continued j hj)

end Race

/-! ### A payment -/

/-- A task with a boundary timer and an error boundary event. -/
def chargeTask : Element where
  id := "charge"
  type := .serviceTask
  outbound := some { target := [{ id := "paid", target := "done" }] }
  boundaryTimer := [{ id := "timeout", duration := "1000", target := "remind" }]
  errors := [{ id := "refused", errorId := "declined", target := "cancel" }]

/-- The workflow of the task. -/
def paymentWorkflow : Workflow where
  name := "payment"
  errors := [⟨"declined", "Declined", "E402"⟩]
  process := AList.singleton "process" { id := "process", elements := [chargeTask,
    { id := "done", type := .endEvent }, { id := "remind", type := .endEvent },
    { id := "cancel", type := .endEvent }] }

/-- The activity of the task. -/
def chargeActivity : WorkflowState where
  workflowId := "workflow"
  executionId := "execution"
  processId := "process"
  processInstanceId := "instance"
  elementId := "charge"
  elementType := .serviceTask
  id := ["instance", "activity"]

/-- Its job. -/
def chargeJob : WorkflowState := { chargeActivity with id := ["instance", "activity", "job"] }

/-- The job completes, the timer fires, and the job reports an error. -/
def chargeExits : Fin 3 → Exit
  | 0 => .completion chargeJob
  | 1 => .timer { chargeActivity with execute := some "remind", timer := some ⟨0, 0⟩ }
  | 2 => .error "E402" [] chargeJob

theorem chargeExits_of (i : Fin 3) : (chargeExits i).Of chargeActivity := by
  match i with
  | 0 => exact ⟨"job", rfl, rfl⟩
  | 1 => exact ⟨rfl, rfl⟩
  | 2 => exact ⟨"job", rfl, rfl⟩

/-- The world while the activity runs. -/
def chargeWorld : World :=
  ((({} : World).running "default" paymentWorkflow).put
    (recordLoc "default" chargeActivity) (historyEntry chargeActivity .activityExecute)).put
    ⟨"default", .job, "job"⟩ chargeJob

/-- The runs of the handlers. -/
def chargeRuns (i : Fin 3) : P Unit := (chargeExits i).run (constLib ∅) "default" "default"

instance {ι : Type} [DecidableEq ι] (i : ι) (t : List (WEvent ι)) : Decidable (Continued i t) :=
  inferInstanceAs (Decidable (∃ e ∈ t, _))

/-- The timer has fired and its handler is about to look the activity up when the job completes. -/
theorem activity_continued_once_completion : (∀ i, (chargeExits i).Of chargeActivity) ∧
    ∃ c, Run (env noFault) (.start chargeWorld chargeRuns) c ∧
      Guarded (Exclusive (recordLoc "default" chargeActivity)) c.trace ∧
      c.threads 0 = .ret () ∧ Continued 0 c.trace ∧ ¬ Continued 1 c.trace := by
  obtain ⟨c, hrun, hexclusive, hreturned, hcontinued⟩ := exists_run_of_reaches noFault
    (.start chargeWorld chargeRuns) (List.replicate 9 (1, .ok) ++ List.replicate 18 (0, .ok))
    (fun c => Guarded (Exclusive (recordLoc "default" chargeActivity)) c.trace ∧
      c.threads 0 = .ret () ∧ Continued 0 c.trace) (by decide +kernel)
  refine ⟨chargeExits_of, c, hrun, hexclusive, hreturned, hcontinued, fun htimer => ?_⟩
  exact absurd (activity_continued_once chargeExits_of hrun hexclusive hcontinued htimer)
    (by decide)

/-- **An activity that is continued twice.** The timer fires and its handler sends a token to the
target of the timer; then the job reports an error, and the handler finds the activity recorded as
before and sends a token to the target of the error boundary event. -/
theorem activity_continued_twice : (∀ i, (chargeExits i).Of chargeActivity) ∧
    ∃ c, Run (env noFault) (.start chargeWorld chargeRuns) c ∧
      c.state.value ⟨"default", .wfProcessInstance, "instance"⟩ ≠ none ∧
      c.threads 1 = .ret () ∧ c.threads 2 = .ret () ∧ Continued 1 c.trace ∧ Continued 2 c.trace :=
  ⟨chargeExits_of, exists_run_of_reaches noFault _
    (List.replicate 21 (1, .ok) ++ List.replicate 10 (2, .ok)) _ (by decide +kernel)⟩

end SharWorkflow
