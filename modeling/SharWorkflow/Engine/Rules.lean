import SharWorkflow.Nats.Protocol
import SharWorkflow.Engine.Activity

/-!
# Proof rules for the operations

One rule for each operation that the handlers are built from, in the vocabulary of
`Nats/Protocol.lean`: what a thread has to show at each way in which the operation can end.
-/

namespace SharWorkflow

open Concurrent Protocol World

/-! ### What a trace shows -/

/-- The call marks the function `f`. -/
def isMark (f : String) : Op → Bool
  | .mark f' => f' = f
  | _ => false

/-- The calls of the function `f`. -/
def marks {ι : Type} (f : String) (t : List (WEvent ι)) : List (WEvent ι) :=
  t.filter fun e => isMark f e.op

/-- The state that the call has published on the subject. -/
def sentState (subject : Subject) : (o : Op) → Ans o → Option WorkflowState
  | .publish ⟨_, subject', .state state, _⟩, .ok _ =>
    if subject' = subject then some state else none
  | _, _ => none

variable {subject : Subject} {m : Msg}

theorem subject_of_sentState {r : Ans (.publish m)}
    (h : (sentState subject (.publish m) r).isSome = true) : m.subject = subject := by
  obtain ⟨ns, subject', body, embargo⟩ := m
  cases body <;> cases r <;> simp [sentState] at h
  exact h

/-- The states published on a subject, the newest one first. -/
def sent {ι : Type} (subject : Subject) (t : List (WEvent ι)) : List WorkflowState :=
  t.filterMap fun e => sentState subject e.op e.answer

/-- The function that the thread has last called, among those that leave a mark. -/
def lastMark {ι : Type} [DecidableEq ι] (i : ι) : List (WEvent ι) → Option String
  | [] => none
  | e :: t =>
    if e.thread = i then
      match e.op with
      | .mark f => some f
      | _ => lastMark i t
    else lastMark i t

theorem lastMark_cons_mark {ι : Type} [DecidableEq ι] (i : ι) (w : World) (f : String)
    (t : List (WEvent ι)) : lastMark i (⟨i, w, .mark f, ()⟩ :: t) = some f := by
  simp [lastMark]

theorem lastMark_cons_of_ne {ι : Type} [DecidableEq ι] {i : ι} {e : WEvent ι}
    (h : e.thread ≠ i) (t : List (WEvent ι)) : lastMark i (e :: t) = lastMark i t := by
  simp [lastMark, h]

theorem lastMark_cons_of_not_mark {ι : Type} [DecidableEq ι] {i : ι} {e : WEvent ι}
    (h : ∀ f, isMark f e.op = false) (t : List (WEvent ι)) :
    lastMark i (e :: t) = lastMark i t := by
  obtain ⟨j, w, o, r⟩ := e
  rw [lastMark]
  split
  · cases o with
    | mark f => exact absurd (h f) (by simp [isMark])
    | _ => rfl
  · rfl

variable {o : Op} {r : Ans o}

theorem isMark_of_quiet {f : String} (h : IsQuiet o r) : isMark f o = false := by
  cases o <;> first | rfl | exact h.elim

theorem sentState_of_quiet (h : IsQuiet o r) : sentState subject o r = none := by
  cases o with
  | publish m =>
    obtain ⟨e, rfl⟩ := h
    obtain ⟨ns, subject', payload, embargo⟩ := m
    cases payload <;> rfl
  | _ => rfl

/-- Only a publication that succeeds publishes a state. -/
theorem sentState_eq_none
    (h : ∀ m, o = .publish m → isFailure o r = true) : sentState subject o r = none := by
  cases o with
  | publish m =>
    cases r with
    | ok _ => exact absurd (h m rfl) (by simp [isFailure])
    | error e => exact sentState_of_quiet (o := .publish m) ⟨e, rfl⟩
  | _ => rfl

variable {ι L α : Type} [DecidableEq ι] {F : Op → Prop} {X : Prop}
  {G : WGuard ι} {I : WInv ι L} {i : ι}
  {l : L} {s₀ : World} {ns : String}

/-! ### Reads -/

/-- The object is loaded, or there is none, or a call has failed. -/
theorem safe_loadFor (loc : Loc) {Q : L → World → Except Err loc.Val → Prop}
    {missing failed : String} {absent : Sentinel} (hI : QuietInv F I)
    (hok : IfFound I i l s₀ loc Q)
    (hmissing : IfMissing I i l s₀ loc (.wrap missing (.sentinel absent)) Q)
    (hfailed : IfFailed F G I i l s₀ Q) :
    (natsProtocol F X G I).Safe i Q l s₀ (loadFor loc missing absent failed).run := by
  refine Safe.seq (safe_nsKVs hI (fun hat₁ => safe_mapError (safe_loadObj hI ?_ ?_ ?_)) hfailed)
  · exact fun hat hv => hok (hat.from_earlier hat₁.later) hv
  · exact fun hat hnone => hmissing (hat.from_earlier hat₁.later) hnone
  · intro s t g e hat hfault he
    have hplain := hfailed (hat.from_earlier hat₁.later) hfault (he.wrap failed)
    simpa [Except.mapError, he.1] using hplain

variable {id : String} {Q : L → World → Except Err WorkflowState → Prop}

/-- The error of `hasValidExecution` when there is no execution. -/
def orphanedExecution : Err :=
  .wrap "orphaned activity"
    (.wrap "get execution failed to load object" (.sentinel .executionNotFound))

/-- The error of `hasValidProcess` when there is no process instance. -/
def orphanedProcess : Err :=
  .wrap "orphaned activity" (.wrap "get process instance failed to load instance"
    (.sentinel .processInstanceNotFound))

variable {ex : String}

theorem safe_hasValidExecution {Q : L → World → Except Err Execution → Prop} (hI : QuietInv F I)
    (hok : IfFound I i l s₀ ⟨ns, .wfExecution, ex⟩ Q)
    (hmissing : IfMissing I i l s₀ ⟨ns, .wfExecution, ex⟩ orphanedExecution Q)
    (hfailed : IfFailed F G I i l s₀ Q) :
    (natsProtocol F X G I).Safe i Q l s₀ (hasValidExecution ns ex).run := by
  refine safe_mapError (safe_loadFor ⟨ns, .wfExecution, ex⟩ hI hok hmissing fun {s t g e} hat hfault
    he => ?_)
  have hplain := hfailed hat hfault he
  simpa [Except.mapError, he.1] using hplain

theorem safe_hasValidProcess {pi : String}
    {Q : L → World → Except Err (ProcessInstance × Execution) → Prop} (hI : QuietInv F I)
    (hok : ∀ {s t g v v'}, At I i l s₀ s t g → s.value ⟨ns, .wfProcessInstance, pi⟩ = some v →
      Q l s (.ok (v, v')))
    (hmissing : IfMissing I i l s₀ ⟨ns, .wfExecution, ex⟩ orphanedExecution Q)
    (hmissing' : IfMissing I i l s₀ ⟨ns, .wfProcessInstance, pi⟩ orphanedProcess Q)
    (hfailed : IfFailed F G I i l s₀ Q) :
    (natsProtocol F X G I).Safe i Q l s₀ (hasValidProcess ns pi ex).run := by
  refine Safe.seq (safe_hasValidExecution hI (fun {_ _ _ v'} hat₁ _ => ?_) hmissing hfailed)
  refine Safe.seq (safe_mapError (safe_loadFor ⟨ns, .wfProcessInstance, pi⟩ hI ?_ ?_ ?_))
  · exact fun hat hv => .ret (hok (hat.from_earlier hat₁.later) hv)
  · exact fun hat hnone => hmissing' (hat.from_earlier hat₁.later) hnone
  · intro s t g e hat hfault he
    have hplain := hfailed (hat.from_earlier hat₁.later) hfault he
    simpa [Except.mapError, he.1] using hplain

variable {state : WorkflowState}

theorem safe_getElement {Q : L → World → Except Err Element → Prop} (hI : QuietInv F I)
    (hok : ∀ {s t g} {wf : Workflow} {el}, At I i l s₀ s t g →
      s.value ⟨ns, .wf, state.workflowId⟩ = some wf →
      (elementTable wf).lookup state.elementId = some el → Q l s (.ok el))
    (hunknown : ∀ {s t g} {wf : Workflow} {e}, At I i l s₀ s t g →
      s.value ⟨ns, .wf, state.workflowId⟩ = some wf →
      (elementTable wf).lookup state.elementId = none → Q l s (.error e))
    (hmissing : ∀ {s t g e}, At I i l s₀ s t g → s.value ⟨ns, .wf, state.workflowId⟩ = none →
      Q l s (.error e))
    (hfailed : ∀ {s t g e}, At I i l s₀ s t g → Faulted F G i s t → Q l s (.error e)) :
    (natsProtocol F X G I).Safe i Q l s₀ (getElement ns state).run := by
  refine Safe.seq (safe_nsKVs hI (fun hat₁ => Safe.seq (safe_attempt (safe_loadObj hI ?_ ?_ ?_)))
    fun hat hfault _ => hfailed hat hfault)
  · intro s t g wf hat hv
    refine Safe.seq (.ret ?_)
    dsimp only
    split
    · exact .ret (hok (hat.from_earlier hat₁.later) hv ‹_›)
    · exact .ret (hunknown (hat.from_earlier hat₁.later) hv ‹_›)
  · exact fun hat hnone => Safe.seq (.ret (hmissing (hat.from_earlier hat₁.later) hnone))
  · intro s t g e hat hfault he
    have hnot : ¬ e.is .keyNotFound = true := by simp [he.1]
    dsimp only
    rw [if_neg hnot]
    exact Safe.seq (.ret (.ret (hfailed (hat.from_earlier hat₁.later) hfault)))

/-- The error of `GetWorkflow` when there is no definition. -/
def workflowMissing (workflowID : String) : Err :=
  .wrap "error caching GetWorkflow"
    (.wrap ("error retrieving cacheable value for key " ++ workflowID)
      (.wrap "get workflow failed to load object" (.sentinel .workflowNotFound)))

/-- The definition comes from the cache or from the store; `W` is what is known of both. -/
theorem safe_getWorkflow {Q : L → World → Except Err Workflow → Prop} {W : Workflow → Prop}
    (hI : QuietInv F I) (hcached : ∀ {s t g wf}, I s t g → s.cache id = some wf → W wf)
    (hstored : ∀ {s t g} {wf : Workflow}, I s t g → s.value ⟨ns, .wf, id⟩ = some wf → W wf)
    (hset : ∀ {s t g wf s'}, I s t g → W wf → env F (.cacheSet id wf) s () s' →
      I s' (⟨i, s, .cacheSet id wf, ()⟩ :: t) g)
    (hok : ∀ {s wf}, Later s₀ s → W wf → Q l s (.ok wf))
    (hmissing : IfMissing I i l s₀ ⟨ns, .wf, id⟩ (workflowMissing id) Q)
    (hfailed : IfFailed F G I i l s₀ Q) :
    (natsProtocol F X G I).Safe i Q l s₀ (getWorkflow ns id).run := by
  refine safe_wrap (safe_quiet hI (fun _ => trivial) nofun fun {s t g r s'} hat₁ henv _ => ?_)
  obtain ⟨rfl, hr⟩ := henv
  cases r with
  | some wf =>
    have hwf : s'.cache id = some wf := by rcases hr with hr | hr <;> simp_all
    exact .ret (hok hat₁.later (hcached hat₁.inv hwf))
  | none =>
    refine Safe.seq (safe_wrap (safe_loadFor ⟨ns, .wf, id⟩ hI ?_ ?_ ?_))
    · intro s t g wf hat hv
      have hW := hstored hat.inv hv
      refine safe_call nofun fun {s₂ t₂ g₂ r₂ s₂'} hat₂ henv₂ _ => ?_
      have hlater : Later s₀ s₂' := later_trans hat₁.later
        (later_trans hat.later (later_trans hat₂.later (later_of_env henv₂)))
      exact hat₂.same (hset hat₂.inv hW henv₂) (.ret (hok hlater hW))
    · exact fun hat hnone => hmissing (hat.from_earlier hat₁.later) hnone
    · exact fun hat hfault he =>
        hfailed (hat.from_earlier hat₁.later) hfault ((he.wrap _).wrap _)

/-! ### Publishing -/

theorem safe_publishMsg {Q : L → World → Except Err Unit → Prop} (hI : QuietInv F I)
    (hsent : IfDone G I i l s₀ (.publish m) (.ok ()) (·.publish m) fun l s => Q l s (.ok ()))
    (hfailed : IfFailed F G I i l s₀ Q) :
    (natsProtocol F X G I).Safe i Q l s₀ (publishMsg m).run := by
  refine safe_call nofun fun hat henv hguard => ?_
  have hanswer := henv
  rcases henv with ⟨rfl, rfl⟩ | ⟨rfl, hF, text, rfl⟩
  · exact (hsent hat hguard).imp .ret
  · exact .quiet hI hat hanswer ⟨_, rfl⟩
      (.ret (hfailed hat ⟨_, _, hF, rfl, hguard⟩ (Err.plain_nats text)))

/-- The message by which a state is published. -/
def stateMsg (ns : String) (subject : Subject) (state : WorkflowState) (time embargo : Int) : Msg :=
  ⟨ns, subject, .state (state.stamped time), embargo⟩

/-- A state that starts no user task is published by one message. -/
theorem safe_publishWorkflowState {embargo : Int} (hI : QuietInv F I)
    (hsubject : subject ≠ .jobUserTaskExecute)
    (hsent : ∀ {s t g time}, At I i l s₀ s t g → G ⟨i, s, .publish (stateMsg ns subject state time
      embargo), .ok ()⟩ t → Restores I g ⟨i, s, .publish (stateMsg ns subject state time embargo),
      .ok ()⟩ t (s.publish (stateMsg ns subject state time embargo)) fun l' =>
      Q l' (s.publish (stateMsg ns subject state time embargo)) (.ok (state.stamped time)))
    (hfailed : IfFailed F G I i l s₀ Q) :
    (natsProtocol F X G I).Safe i Q l s₀ (publishWorkflowState ns subject state embargo).run := by
  refine Safe.seq (safe_now hI fun {_ _ _ time} hat₁ => Safe.seq (safe_wrap
    (safe_publishMsg hI ?_ ?_)))
  · intro s t g hat hguard
    obtain ⟨l', hI', hQ⟩ := hsent (hat.from_earlier hat₁.later) hguard
    refine ⟨l', hI', ?_⟩
    simp only [hsubject, if_false]
    exact .ret hQ
  · exact fun hat hfault he => hfailed (hat.from_earlier hat₁.later) hfault (he.wrap _)

/-! ### History -/

theorem safe_recordHistory {historyType : ProcessHistoryType}
    {Q : L → World → Except Err Unit → Prop} (hI : QuietInv F I)
    (hdone : ∀ {s t g} (v : (historyLoc ns state.processInstanceId (TrackingID.ID state.id)
        historyType).Val), v = historyEntry state historyType →
      At I i l s₀ s t g → G ⟨i, s, .put _ v, .ok ()⟩ t →
      Restores I g ⟨i, s, .put _ v, .ok ()⟩ t (s.put _ v) fun l' => Q l' (s.put _ v) (.ok ()))
    (hfailed : ∀ {s t g e}, At I i l s₀ s t g → Faulted F G i s t → Q l s (.error e)) :
    (natsProtocol F X G I).Safe i Q l s₀ (recordHistory ns state historyType).run := by
  refine Safe.seq (safe_nsKVs hI (fun hat₁ => safe_mapError (safe_saveObj hI ?_ ?_))
    fun hat hfault _ => hfailed hat hfault)
  · exact fun hat hguard => hdone _ rfl (hat.from_earlier hat₁.later) hguard
  · exact fun hat hfault _ => hfailed (hat.from_earlier hat₁.later) hfault

end SharWorkflow
