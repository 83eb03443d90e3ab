import SharWorkflow.Client.Jobs

/-!
# How a job is settled

The message of a service task should be settled once, in the way that fits the outcome of its
service function.

* A function that returns: the task is completed, and the message acknowledged.
* A workflow error that the server handles: the message is acknowledged, and not delivered again.
* Any other error: the backoff is called once. It hands the message back with a delay, or terminates
  it after the last attempt, with one action.
* A panic that is recovered: the message is acknowledged, and the state of the job is signalled as
  fatal.

The client and the dispatcher look for a workflow error on their own, and for different types: the
client for a pointer, the dispatcher for a value. So an error of one of these forms is handed back
although the server has handled it, or was never told; and a panic whose value is not an error is
not settled at all. `job_settled_iff` says when the message is settled as it should be, for every
error and all answers of the server.
-/

namespace SharWorkflow

open Handling List Effect

/-! ### Handlings -/

namespace Handling

variable {α β : Type}

@[simp]
theorem pure_bind (a : α) (f : α → Handling β) : (pure a : Handling α) >>= f = f a := rfl

@[simp]
theorem panic_bind (f : α → Handling β) : (panic : Handling α) >>= f = panic := rfl

@[simp]
theorem bind_assoc {γ : Type} (x : Handling α) (f : α → Handling β) (g : β → Handling γ) :
    x >>= f >>= g = x >>= fun a => f a >>= g := by
  obtain ⟨es, r⟩ := x
  cases r with
  | none => rfl
  | some a =>
    simp only [bind]
    cases (f a).result <;> simp

@[simp]
theorem effects_emit_bind (e : Effect) (f : Unit → Handling β) :
    (emit e >>= f).effects = e :: (f ()).effects := rfl

@[simp]
theorem effects_bind_pure (x : Handling α) (f : α → β) :
    (x >>= fun a => pure (f a)).effects = x.effects := by
  obtain ⟨es, r⟩ := x
  cases r with
  | none => rfl
  | some a => exact append_nil es

@[simp]
theorem effects_pure (a : α) : (pure a : Handling α).effects = [] := rfl

@[simp]
theorem effects_emit (e : Effect) : (emit e).effects = [e] := rfl

@[simp]
theorem effects_panic : (panic : Handling α).effects = [] := rfl

@[simp]
theorem deref_some (a : α) : deref (some a) = pure a := rfl

@[simp]
theorem deref_none : deref (none : Option α) = panic := rfl

@[simp]
theorem effects_deferring (x : Handling α) (es : List Effect) :
    (x.deferring es).effects = x.effects ++ es := rfl

end Handling

/-! ### Dispositions -/

namespace Effect

/-- The effect settles the message. -/
def settles : Effect → Bool
  | ack | nak | nakWithDelay _ | term => true
  | _ => false

def isBackoff : Effect → Bool
  | backoff => true
  | _ => false

def isSignal : Effect → Bool
  | handleWorkflowFatalError _ => true
  | _ => false

def isCompletion : Effect → Bool
  | completeServiceTask _ _ _ => true
  | _ => false

/-- The effect is one of the actions for a task whose retries are exceeded. -/
def isRetryAction : Effect → Bool
  | cancelProcessInstance _ _ | handleWorkflowError _ _ _ | handleWorkflowFatalError _
  | completeServiceTask _ _ _ => true
  | _ => false

end Effect

/-- The message is acknowledged, and nothing else settles it. -/
def Acked (es : List Effect) : Prop :=
  es.filter Effect.settles = [.ack] ∧ es.filter Effect.isBackoff = []

/-- The task is completed, and the message is acknowledged. -/
def CompletedAndAcked (es : List Effect) : Prop :=
  Acked es ∧ (es.filter Effect.isCompletion).length = 1 ∧ es.filter Effect.isSignal = []

/-- The message is acknowledged without anything else. -/
def AckedOnly (es : List Effect) : Prop :=
  Acked es ∧ es.filter Effect.isCompletion = [] ∧ es.filter Effect.isSignal = []

/-- The message is acknowledged, and the state is signalled as fatal once. -/
def AckedAndSignalled (state : WorkflowState) (es : List Effect) : Prop :=
  Acked es ∧ es.filter Effect.isSignal = [.handleWorkflowFatalError state]

/-- What the backoff does. -/
def afterBackoff (es : List Effect) : List Effect := es.dropWhile fun e => !e.isBackoff

/-- The backoff is called once, and the message is handed back with a delay, or terminated with one
action for a task whose retries are exceeded. -/
def BackedOff (es : List Effect) : Prop :=
  (es.filter Effect.isBackoff).length = 1 ∧
    ((∃ offset, es.filter Effect.settles = [.nakWithDelay offset]) ∨
      es.filter Effect.settles = [.term] ∧
        ((afterBackoff es).filter Effect.isRetryAction).length = 1)

/-! ### Messages that reach the service function -/

/-- The message reaches the service function of a task: its job is found and can be read, and the
function is registered. -/
structure Runs (c : Answers) (m : JobMessage) (ut job : WorkflowState) : Prop where
  admitted : admission c.lib c.now m.headers = .handled
  compatible : c.compatible = .ok ()
  data : m.data = .ok ut
  context : m.context = .ok ()
  serviceTask : ut.elementType = .serviceTask
  found : c.getJob (TrackingID.ID ut.id) = .ok job
  located : c.serviceTasks job.executeVersion = true
  decoded : (c.lib.decode job.vars).isOk = true
  compensation : job.state = .compensating →
    job.compensation ≠ none ∧ c.compensationVariables = .ok ()

variable {c : Answers} {m : JobMessage} {ut job : WorkflowState}

/-- The error that the client makes of a panic. -/
def panicError (ut : WorkflowState) (execute : String) (e : Err) : Err :=
  .workflowFatal (.wrap ("call to service task \"" ++ execute ++ "\" terminated in panic") e)
    (some ut)

/-- What the handler returns, by the outcome of the service function. -/
def taskDone (c : Answers) (ut job : WorkflowState) : Handling (Bool × Option Err) :=
  match c.outcome with
  | .returned vars => serviceTaskReturned c ut job (TrackingID.ID ut.id) vars
  | .failed vars e =>
    serviceTaskFailed c (TrackingID.ID ut.id) vars (.wrap "execute service task" e)
  | .panicked value =>
    match value, c.noRecovery, ut.execute with
    | .error e, false, some execute => return (false, some (panicError ut execute e))
    | _, _, _ => panic

theorem Runs.svcFnExecutor (h : Runs c m ut job) : svcFnExecutor c job = runServiceTask c := by
  rw [SharWorkflow.svcFnExecutor]
  split
  · rename_i hcompensating
    obtain ⟨hplan, hvars⟩ := h.compensation hcompensating
    obtain ⟨plan, hplan⟩ := Option.ne_none_iff_exists'.1 hplan
    rw [hplan, hvars]
  · rfl

theorem Runs.effects (h : Runs c m ut job) : (processJob c m).effects = .executeServiceTask ::
      (taskDone c ut job >>= fun r => settle c m (processed true r.1 r.2)).effects := by
  have hdecoded : ∃ vals, c.lib.decode job.vars = .ok vals := by
    have := h.decoded
    cases hdecode : c.lib.decode job.vars with
    | ok vals => exact ⟨vals, rfl⟩
    | error e => simp [hdecode, Except.isOk, Except.toBool] at this
  obtain ⟨vals, hdecoded⟩ := hdecoded
  simp only [processJob, h.admitted, clientProcessFn, h.compatible, h.data, h.context,
    h.serviceTask, processServiceTaskJob, h.found, h.located, if_true, hdecoded, h.svcFnExecutor,
    runServiceTask, taskDone]
  cases houtcome : c.outcome with
  | returned vars => simp [recovered]
  | failed vars e => simp [recovered]
  | panicked value =>
    cases value with
    | other => simp [recovered]
    | error e =>
      cases hrecovery : c.noRecovery with
      | true => simp [recovered, hrecovery]
      | false =>
        cases hexecute : ut.execute with
        | none => simp [recovered, hrecovery, hexecute]
        | some execute =>
          simp [recovered, hrecovery, hexecute, serviceTaskFailed, Err.as, Err.codeOf?, panicError]

/-! ### How the dispatcher leaves the message -/

theorem effects_settle_none (ack : Bool) :
    (settle c m (processed true ack none)).effects = [if ack then .ack else .nak] := by
  cases ack <;> rfl

variable {ack : Bool} {e : Err}

theorem effects_settle_fatal {state : Option WorkflowState}
    (h : e.as Err.fatalState? = some state) : (settle c m (processed true ack (some e))).effects =
      (state.map handleWorkflowFatalError).toList ++ [.ack] := by
  cases state <;> simp [settle, processed, h]

theorem effects_settle_value (h : e.as Err.fatalState? = none)
    (hvalue : e.as (Err.codeOf? false) ≠ none) :
    (settle c m (processed true ack (some e))).effects = [if ack then .ack else .nak] := by
  cases ack <;> simp [settle, processed, h, hvalue, Settlement.asked]

theorem effects_settle_backoff (h : e.as Err.fatalState? = none)
    (hvalue : e.as (Err.codeOf? false) = none) :
    (settle c m (processed true ack (some e))).effects = (backoff c m).effects := by
  simp [settle, processed, h, hvalue]

/-! ### The backoff -/

/-- The action for a task whose retries are exceeded is taken: there is one, and the value that it
sets can be read and encoded. -/
def TakesAction (c : Answers) (retry : DefaultTaskRetry) : Prop :=
  ∃ exceeded, retry.defaultExceeded = some exceeded ∧
    (exceeded.action = .setVariableValue → ∃ v, retryValue c exceeded = some v ∧
      (c.lib.encode (some (AList.singleton exceeded.variable_ v))).isOk = true)

/-- The backoff of the task settles the message: its delivery count and its workflow can be looked
up, the workflow has the task with a retry behaviour, and the action is taken after the last
attempt. -/
def BacksOff (c : Answers) (ut : WorkflowState) : Prop :=
  ∃ n wf elem retry, c.numDelivered = .ok n ∧ c.getWorkflow ut.workflowId = .ok wf ∧
    (elementTable wf).lookup ut.elementId = some elem ∧ elem.retryBehaviour = some retry ∧
    (n < retry.number ∨ TakesAction c retry)

variable {before : List Effect}

/-- The effects before the backoff do not settle the message. -/
theorem backedOff_append_iff {after : List Effect} (hsettles : before.filter settles = [])
    (hbackoff : ∀ e ∈ before, e.isBackoff = false) (hafter : after.filter isBackoff = []) :
    BackedOff (before ++ .backoff :: after) ↔
      (∃ offset, after.filter settles = [.nakWithDelay offset]) ∨
        after.filter settles = [.term] ∧ (after.filter isRetryAction).length = 1 := by
  have hbefore : before.filter isBackoff = [] := by simpa using hbackoff
  have hdrop : afterBackoff (before ++ .backoff :: after) = .backoff :: after := by
    rw [afterBackoff, dropWhile_append_of_pos (by simpa using hbackoff)]
    rfl
  simp [BackedOff, hdrop, hsettles, hbefore, hafter, filter_cons, settles,
    isBackoff, isRetryAction]

theorem effects_completeServiceTask (trackingID : String) (vals : Vars)
    (compensating : Bool) : (completeServiceTask c trackingID (some vals) compensating).effects =
      match c.lib.encode vals with
      | .error _ => []
      | .ok b => [.completeServiceTask trackingID b compensating] := by
  simp only [completeServiceTask, deref_some, pure_bind]
  cases c.lib.encode vals with
  | error e => rfl
  | ok b => cases c.completeServiceTask <;> rfl

/-- What is done for a task whose retries are exceeded is the action. -/
theorem effects_retryExceeded (state : WorkflowState) (retry : DefaultTaskRetry) :
    (∀ e ∈ (retryExceeded c state retry).effects, e.isRetryAction = true) ∧
      ((retryExceeded c state retry).effects.length = 1 ↔ TakesAction c retry) := by
  cases hexceeded : retry.defaultExceeded with
  | none => simp [retryExceeded, TakesAction, hexceeded]
  | some exceeded =>
    cases haction : exceeded.action with
    | failWorkflow =>
      simp [retryExceeded, TakesAction, hexceeded, haction, isRetryAction]
    | throwWorkflowError =>
      simp [retryExceeded, TakesAction, hexceeded, haction, isRetryAction]
    | pauseWorkflow =>
      simp [retryExceeded, TakesAction, hexceeded, haction, isRetryAction]
    | setVariableValue =>
      cases hvalue : retryValue c exceeded with
      | none => simp [retryExceeded, TakesAction, hexceeded, haction, hvalue]
      | some v =>
        have heffects : (retryExceeded c state retry).effects = (completeServiceTask c
            (TrackingID.ID state.id) (some (some (AList.singleton exceeded.variable_ v)))
            (state.state = .compensating)).effects := by
          simp [retryExceeded, hexceeded, haction, hvalue]
        rw [heffects, effects_completeServiceTask]
        cases hencode : c.lib.encode (some (AList.singleton exceeded.variable_ v)) <;>
          simp [TakesAction, hexceeded, haction, hvalue, hencode, isRetryAction, Except.isOk,
            Except.toBool]

theorem Effect.not_settles_of_isRetryAction {e : Effect} (h : e.isRetryAction = true) :
    e.settles = false ∧ e.isBackoff = false := by
  cases e <;> simp_all [isRetryAction, settles, isBackoff]

/-- The effects of the backoff of a task, behind the call. -/
theorem settled_backoffTask_iff (n : Nat) (retry : DefaultTaskRetry) :
    ((∃ offset, (backoffTask c ut n retry).effects.filter settles = [.nakWithDelay offset]) ∨
        (backoffTask c ut n retry).effects.filter settles = [.term] ∧
          ((backoffTask c ut n retry).effects.filter isRetryAction).length = 1) ↔
      n < retry.number ∨ TakesAction c retry := by
  rw [backoffTask]
  by_cases hexceeded : n ≥ retry.number
  · obtain ⟨hall, hlength⟩ := effects_retryExceeded (c := c) ut retry
    have hsettles : (retryExceeded c ut retry).effects.filter settles = [] := by
      simpa using fun e he => (not_settles_of_isRetryAction (hall e he)).1
    have haction : (retryExceeded c ut retry).effects.filter isRetryAction =
        (retryExceeded c ut retry).effects := by
      simpa using hall
    rw [if_pos hexceeded, effects_deferring, filter_append, filter_append, hsettles,
      haction]
    simp [filter_cons, settles, isRetryAction, hlength, hexceeded.not_gt]
  · simp [if_neg hexceeded, filter_cons, settles, Nat.lt_of_not_ge hexceeded]

/-- **The backoff settles the message** exactly when it gets to its task, and to the action for its
last attempt. -/
theorem backedOff_backoff_iff (hdata : m.data = .ok ut)
    (hsettles : before.filter settles = []) (hbackoff : ∀ e ∈ before, e.isBackoff = false) :
    BackedOff (before ++ (backoff c m).effects) ↔ BacksOff c ut := by
  simp only [backoff, hdata, effects_emit_bind]
  cases hn : c.numDelivered with
  | error e =>
    rw [backedOff_append_iff hsettles hbackoff rfl]
    simp [BacksOff, hn]
  | ok n =>
    cases hwf : c.getWorkflow ut.workflowId with
    | error e =>
      simp only [hwf]
      rw [backedOff_append_iff hsettles hbackoff (by split <;> rfl)]
      split <;> simp [BacksOff, hwf, filter_cons, settles, isRetryAction]
    | ok wf =>
      simp only [hwf]
      cases helem : (elementTable wf).lookup ut.elementId with
      | none =>
        rw [backedOff_append_iff hsettles hbackoff rfl]
        simp [BacksOff, hwf, helem]
      | some elem =>
        cases hretry : elem.retryBehaviour with
        | none =>
          rw [backedOff_append_iff hsettles hbackoff (by simp [hretry])]
          simp [BacksOff, hwf, helem, hretry]
        | some retry =>
          simp only [deref_some, pure_bind, hretry]
          have hquiet : (backoffTask c ut n retry).effects.filter isBackoff = [] := by
            have hall := (effects_retryExceeded (c := c) ut retry).1
            rw [backoffTask]
            split
            · have := fun e he => (not_settles_of_isRetryAction (hall e he)).2
              simpa [isBackoff] using this
            · rfl
          rw [backedOff_append_iff hsettles hbackoff hquiet, settled_backoffTask_iff]
          simp [BacksOff, hn, hwf, helem, hretry]

/-! ### The outcomes of a service function -/

/-- The variables are there, and can be encoded. -/
def Encodes (c : Answers) (vars : Option Vars) : Prop :=
  ∃ vals b, vars = some vals ∧ c.lib.encode vals = .ok b

/-- Without a backoff the dispatcher completes nothing. -/
theorem filter_isCompletion_settle (done : Processed)
    (h : (settle c m done).effects.filter isBackoff = []) :
    (settle c m done).effects.filter isCompletion = [] := by
  obtain ⟨signal, settlement⟩ := done
  cases settlement with
  | ack => cases signal <;> rfl
  | nak => cases signal <;> rfl
  | backoff => cases signal <;> cases h

theorem filter_isCompletion_bind_settle {x : Handling (Bool × Option Err)}
    (hx : x.effects.filter isCompletion = [])
    (h : (x >>= fun r => settle c m (processed true r.1 r.2)).effects.filter isBackoff = []) :
      (x >>= fun r => settle c m (processed true r.1 r.2)).effects.filter isCompletion =
      [] := by
  obtain ⟨es, r⟩ := x
  cases r with
  | none => exact hx
  | some r =>
    change (es ++ (settle c m (processed true r.1 r.2)).effects).filter _ = [] at h ⊢
    rw [filter_append, append_eq_nil_iff] at h ⊢
    exact ⟨hx, filter_isCompletion_settle _ h.2⟩

variable {vars : Option Vars}

/-- A service function that returns is completed, and its message acknowledged, exactly when its
variables can be encoded and the server accepts them. -/
theorem completedAndAcked_iff (h : Runs c m ut job) (houtcome : c.outcome = .returned vars) :
    (c.completeServiceTask = .ok () ∧ CompletedAndAcked (processJob c m).effects) ↔
      c.completeServiceTask = .ok () ∧ Encodes c vars := by
  rw [h.effects, taskDone, houtcome]
  refine and_congr_right fun hcompletes => ?_
  cases vars with
  | none =>
    simp [serviceTaskReturned, completeServiceTask, CompletedAndAcked, Acked, Encodes,
      filter_cons, settles]
  | some vals =>
    cases hencode : c.lib.encode vals with
    | ok b =>
      simp [serviceTaskReturned, completeServiceTask, hcompletes, CompletedAndAcked, Acked, Encodes,
        hencode, filter_cons, settles, isBackoff, isCompletion, isSignal, effects_settle_none]
    | error e =>
      have hnone : (serviceTaskReturned c ut job (TrackingID.ID ut.id) (some vals)).effects.filter
          isCompletion = [] := by
        simp only [serviceTaskReturned, completeServiceTask, deref_some, hencode, pure_bind]
        split
        · split <;> rfl
        · split <;> rfl
      simp only [CompletedAndAcked, Acked, Encodes, filter_cons, isBackoff,
        isCompletion, Bool.false_eq_true, if_false]
      refine iff_of_false ?_ ?_
      · rintro ⟨⟨-, hbackoff⟩, hcompletion, -⟩
        rw [filter_isCompletion_bind_settle hnone hbackoff] at hcompletion
        cases hcompletion
      · rintro ⟨vals', b, hvals, hb⟩
        cases hvals
        cases hencode.symm.trans hb

/-- A panic is signalled, and its message acknowledged, exactly when its value is an error and the
state names the task. -/
theorem ackedAndSignalled_iff (h : Runs c m ut job) {value : PanicValue}
    (houtcome : c.outcome = .panicked value) (hrecovery : c.noRecovery = false) :
    AckedAndSignalled ut (processJob c m).effects ↔
      (∃ e, value = .error e) ∧ ut.execute ≠ none := by
  rw [h.effects, taskDone, houtcome]
  cases value with
  | other => simp [AckedAndSignalled, isSignal]
  | error e =>
    cases hexecute : ut.execute with
    | none => simp [hrecovery, AckedAndSignalled, isSignal]
    | some execute =>
      have hfatal : (panicError ut execute e).as Err.fatalState? = some (some ut) := rfl
      simp [hrecovery, effects_settle_fatal hfatal, AckedAndSignalled, Acked,
        filter_cons, isSignal, settles, isBackoff]

/-- The error is a workflow error with a code that the server reports as handled. -/
def Handled (c : Answers) (vars : Option Vars) (e : Err) : Prop :=
  Encodes c vars ∧ ∃ code, e.as Err.code? = some code ∧ code ≠ "" ∧
    c.handleWorkflowError code = .ok true

/-- An error that stops the message from being handed back: a fatal error without a state, or a
workflow error that comes both as a pointer, which is what the client looks for, and as a value,
which is what the dispatcher looks for. -/
def StopsRedelivery (c : Answers) (e : Err) : Prop :=
  match e.as (Err.codeOf? true) with
  | none => e.as Err.fatalState? = some none
  | some code =>
    (c.handleWorkflowError code).isOk = false ∨ e.as Err.fatalState? = some none ∨
      e.as Err.fatalState? = none ∧ e.as (Err.codeOf? false) ≠ none ∧ code ≠ ""

/-- The dispatcher leaves the error of a service function to the backoff: it is neither fatal nor a
workflow error by value, and a workflow error by pointer is reported to the server. -/
def LeftToBackoff (c : Answers) (vars : Option Vars) (e : Err) : Prop :=
  e.as Err.fatalState? = none ∧ e.as (Err.codeOf? false) = none ∧
    ∀ code, e.as (Err.codeOf? true) = some code →
      Encodes c vars ∧ (c.handleWorkflowError code).isOk = true

/-- Effects that neither settle the message nor belong to a disposition. -/
def Quiet (es : List Effect) : Prop :=
  ∀ e ∈ es, e.settles = false ∧ e.isBackoff = false ∧ e.isCompletion = false ∧ e.isSignal = false

theorem Quiet.filter_eq {es : List Effect} (h : Quiet es) :
    es.filter settles = [] ∧ es.filter isBackoff = [] ∧
      es.filter isCompletion = [] ∧ es.filter isSignal = [] := by
  refine ⟨?_, ?_, ?_, ?_⟩ <;> rw [filter_eq_nil_iff]
  · exact fun e he => by simp [(h e he).1]
  · exact fun e he => by simp [(h e he).2.1]
  · exact fun e he => by simp [(h e he).2.2.1]
  · exact fun e he => by simp [(h e he).2.2.2]

theorem quiet_execute : Quiet [.executeServiceTask] := by
  intro e he
  cases mem_singleton.1 he
  exact ⟨rfl, rfl, rfl, rfl⟩

theorem quiet_report (trackingID code : String) (b : Bytes) :
    Quiet [.executeServiceTask, .handleWorkflowError trackingID code b] := by
  intro e he
  rcases mem_pair.1 he with rfl | rfl <;> exact ⟨rfl, rfl, rfl, rfl⟩

/-- An error is acknowledged without anything else exactly when it is fatal without a state, or a
workflow error by value of a handler that asks for it. -/
theorem ackedOnly_settle_iff (hbefore : Quiet before) :
    AckedOnly (before ++ (settle c m (processed true ack (some e))).effects) ↔
      e.as Err.fatalState? = some none ∨
        e.as Err.fatalState? = none ∧ e.as (Err.codeOf? false) ≠ none ∧ ack = true := by
  obtain ⟨hsettles, hbackoff, hcompletion, hsignal⟩ := hbefore.filter_eq
  simp only [AckedOnly, Acked, filter_append, hsettles, hbackoff, hcompletion, hsignal,
    nil_append]
  cases hfatal : e.as Err.fatalState? with
  | some state =>
    rw [effects_settle_fatal hfatal]
    cases state <;>
      simp [filter_cons, settles, isBackoff, isCompletion, isSignal]
  | none =>
    by_cases hvalue : e.as (Err.codeOf? false) = none
    · rw [effects_settle_backoff hfatal hvalue]
      simp [hvalue, backoff, filter_cons, isBackoff]
    · rw [effects_settle_value hfatal hvalue]
      cases ack <;>
        simp [hvalue, filter_cons, settles, isBackoff, isCompletion,
          isSignal]

/-- A workflow error that the server handles is acknowledged without a backoff exactly when it stops
the redelivery. -/
theorem ackedOnly_iff (h : Runs c m ut job)
    (houtcome : c.outcome = .failed vars e) (hencodes : Encodes c vars) :
    AckedOnly (processJob c m).effects ↔ StopsRedelivery c e := by
  obtain ⟨vals, b, rfl, hencode⟩ := hencodes
  rw [h.effects, taskDone, houtcome]
  simp only [serviceTaskFailed, Err.as_codeOf?_wrap, StopsRedelivery]
  cases hpointer : e.as (Err.codeOf? true) with
  | none =>
    refine (ackedOnly_settle_iff quiet_execute).trans ?_
    simp
  | some code =>
    simp only [deref_some, pure_bind, hencode, bind_assoc, effects_emit_bind]
    cases hserver : c.handleWorkflowError code with
    | error e' =>
      refine (ackedOnly_settle_iff (quiet_report _ code b)).trans ?_
      simp [Err.as, Err.fatalState?, Except.isOk, Except.toBool]
    | ok r =>
      refine (ackedOnly_settle_iff (quiet_report _ code b)).trans ?_
      simp [Except.isOk, Except.toBool]

/-- An error is left to the backoff exactly when it is neither fatal nor a workflow error by
value. -/
theorem backedOff_settle_iff (hbefore : Quiet before) (hdata : m.data = .ok ut) :
    BackedOff (before ++ (settle c m (processed true ack (some e))).effects) ↔
      e.as Err.fatalState? = none ∧ e.as (Err.codeOf? false) = none ∧ BacksOff c ut := by
  obtain ⟨hsettles, hbackoff, -⟩ := hbefore.filter_eq
  cases hfatal : e.as Err.fatalState? with
  | some state =>
    rw [effects_settle_fatal hfatal, BackedOff, filter_append, hbackoff]
    cases state <;> simp [filter_cons, isBackoff]
  | none =>
    by_cases hvalue : e.as (Err.codeOf? false) = none
    · rw [effects_settle_backoff hfatal hvalue,
        backedOff_backoff_iff hdata hsettles fun e he => (hbefore e he).2.1]
      simp [hvalue]
    · rw [effects_settle_value hfatal hvalue, BackedOff, filter_append, hbackoff]
      cases ack <;> simp [hvalue, filter_cons, isBackoff]

/-- An error is left to the backoff, and the backoff settles the message, exactly under these
conditions. -/
theorem backedOff_iff (h : Runs c m ut job) (houtcome : c.outcome = .failed vars e) :
    BackedOff (processJob c m).effects ↔ LeftToBackoff c vars e ∧ BacksOff c ut := by
  rw [h.effects, taskDone, houtcome]
  simp only [serviceTaskFailed, Err.as_codeOf?_wrap, LeftToBackoff]
  cases hpointer : e.as (Err.codeOf? true) with
  | none =>
    refine (backedOff_settle_iff quiet_execute h.data).trans ?_
    simp [and_assoc]
  | some code =>
    cases vars with
    | none => simp [BackedOff, Encodes, isBackoff]
    | some vals =>
      cases hencode : c.lib.encode vals with
      | error e' =>
        simp only [deref_some, pure_bind, hencode]
        refine (backedOff_settle_iff quiet_execute h.data).trans ?_
        simp [Err.as, Err.fatalState?, Encodes, hencode]
      | ok b =>
        simp only [deref_some, pure_bind, hencode, bind_assoc, effects_emit_bind]
        cases hserver : c.handleWorkflowError code with
        | error e' =>
          refine (backedOff_settle_iff (quiet_report _ code b) h.data).trans ?_
          simp [Err.as, Err.fatalState?, hserver, Except.isOk, Except.toBool]
        | ok r =>
          refine (backedOff_settle_iff (quiet_report _ code b) h.data).trans ?_
          simp [Encodes, hencode, hserver, Except.isOk, Except.toBool, and_assoc]

/-! ### The settlement of a job -/

/-- The message is settled once, in the way that fits the outcome of the service function. -/
def SettledByOutcome (c : Answers) (ut : WorkflowState) (es : List Effect) : Prop :=
  match c.outcome with
  | .returned _ => c.completeServiceTask = .ok () ∧ CompletedAndAcked es
  | .failed vars e => (Handled c vars e → AckedOnly es) ∧ (¬ Handled c vars e → BackedOff es)
  | .panicked _ => c.noRecovery = false → AckedAndSignalled ut es

/-- The condition under which it is. -/
def FitsOutcome (c : Answers) (ut : WorkflowState) : Prop :=
  match c.outcome with
  | .returned vars => c.completeServiceTask = .ok () ∧ Encodes c vars
  | .failed vars e => (Handled c vars e → StopsRedelivery c e) ∧
      (¬ Handled c vars e → LeftToBackoff c vars e ∧ BacksOff c ut)
  | .panicked value => c.noRecovery = false → (∃ e, value = .error e) ∧ ut.execute ≠ none

/-- **The settlement of a job**: the message of a service task is settled once, in the way that fits
the outcome of its function, exactly under the condition `FitsOutcome`. -/
theorem job_settled_iff (c : Answers) (m : JobMessage) (ut job : WorkflowState)
    (h : Runs c m ut job) : SettledByOutcome c ut (processJob c m).effects ↔ FitsOutcome c ut := by
  rw [SettledByOutcome, FitsOutcome]
  cases houtcome : c.outcome with
  | returned vars => exact completedAndAcked_iff h houtcome
  | failed vars e =>
    exact and_congr (forall_congr' fun hhandled => ackedOnly_iff h houtcome hhandled.1)
      (forall_congr' fun _ => backedOff_iff h houtcome)
  | panicked value =>
    exact forall_congr' fun hrecovery => ackedAndSignalled_iff h houtcome hrecovery

/-- The job of a task `transfer`. -/
def transferJob : WorkflowState where
  workflowId := "workflow"
  elementId := "pay"
  elementType := .serviceTask
  id := ["instance", "activity", "job"]
  execute := some "transfer"
  executeVersion := "v1"

/-- The task, which is retried twice. -/
def transferTask : Element where
  id := "pay"
  type := .serviceTask
  execute := "transfer"
  retryBehaviour := some { number := 3 }

/-- The workflow of the task. -/
def transferWorkflow : Workflow where
  process := AList.singleton "process" { elements := [transferTask] }

/-- The message with the job. -/
def transferMessage : JobMessage := ⟨⟨"default", .ok (), ""⟩, .ok transferJob, .ok ()⟩

/-- The first delivery of the message to a client, where every call succeeds and the server handles
every error code. -/
def transferAnswers (outcome : Outcome) : Answers where
  lib := constLib ∅
  parseFloat _ := none
  now := 0
  elapsed := 0
  compatible := .ok ()
  getJob _ := .ok transferJob
  serviceTasks _ := true
  compensationVariables := .ok ()
  outcome := outcome
  handleWorkflowError _ := .ok true
  completeServiceTask := .ok ()
  senders _ := false
  sent := .ok ()
  completeSendMessage := .ok ()
  numDelivered := .ok 1
  getWorkflow _ := .ok transferWorkflow

theorem runs_transfer (outcome : Outcome) :
    Runs (transferAnswers outcome) transferMessage transferJob transferJob where
  admitted := rfl
  compatible := rfl
  data := rfl
  context := rfl
  serviceTask := rfl
  found := rfl
  located := rfl
  decoded := rfl
  compensation := nofun

/-- An ordinary error is left to the backoff. -/
theorem job_settled_ordinary_error :
    SettledByOutcome (transferAnswers (.failed (some (some ∅)) (.text "refused"))) transferJob
      (processJob (transferAnswers (.failed (some (some ∅)) (.text "refused")))
      transferMessage).effects :=
      by
  refine (job_settled_iff _ _ _ _ (runs_transfer _)).2 ⟨fun h => ?_, fun _ =>
    ⟨⟨rfl, rfl, nofun⟩, ?_⟩⟩
  · obtain ⟨-, code, hcode, -⟩ := h
    cases hcode
  · exact ⟨1, transferWorkflow, _, _, rfl, rfl, rfl, rfl, .inl (by decide)⟩

/-- **A handled error that is delivered again.** The service function returns a workflow error by
pointer, which the server handles; the dispatcher does not recognise it, so the message is handed
back and the task is executed again. -/
theorem job_handled_and_handed_back :
    Handled (transferAnswers (.failed (some (some ∅)) (.workflowError true "E402"))) (some (some ∅))
        (.workflowError true "E402") ∧
      ¬ SettledByOutcome (transferAnswers (.failed (some (some ∅)) (.workflowError true "E402")))
        transferJob
        (processJob (transferAnswers (.failed (some (some ∅)) (.workflowError true "E402")))
          transferMessage).effects := by
  have hhandled : Handled (transferAnswers (.failed (some (some ∅)) (.workflowError true "E402")))
      (some (some ∅)) (.workflowError true "E402") :=
    ⟨⟨some ∅, _, rfl, rfl⟩, "E402", rfl, by decide, rfl⟩
  refine ⟨hhandled, fun h => ?_⟩
  have hbackoff := (h.1 hhandled).1.2
  cases hbackoff

end SharWorkflow
