import SharWorkflow.Engine.TimedStart
import SharWorkflow.Launch.Keeps
import SharWorkflow.Timers.Boundary

/-!
# The workers of the timers

`listenForTimer` starts a number of goroutines. Each of them fetches the messages of the timers one
by one, until the server is closed. A worker that returns or panics is not started again.

* `handleTimer`: what a worker does about a message. It goes on with the next one, or it returns.
* `timerWorker`: a worker, with all that it fetches.
* `TimerMsg.serviceable`: what a worker relies on. The lookups for the timer of an activity do not
  fail, the history has an entry for the activity, and the definition of the workflow has the
  elements that the message is about.
* `timerWorkers_keep_running`: in every run of the workers and of anything else that uses the store,
  **all workers keep running** as long as the messages are serviceable.

A worker returns when the lookup in the history fails, even when it has just acknowledged the
message because there is no entry.
-/

namespace SharWorkflow

open Concurrent Discipline Option List World

/-! ### The worker -/

/-- A message of a timer, as it is delivered. -/
structure TimerMsg where
  subject : Subject
  /-- the header with the namespace -/
  ns : String
  /-- the header with the embargo -/
  embargo : String := ""
  /-- the header with the correlation id -/
  correlation : String
  /-- the body, if it is a state -/
  data : Option WorkflowState
  /-- whether an acknowledgement of the message is accepted -/
  acks : Bool := true

/-- `boundaryTimerFired`, where the acknowledgement of the message may fail: the worker goes on if
that of a message without an entry in the history does. -/
def boundaryTimerHandled (lib : Lib) (listenerNs ns : String) (acks : Bool)
    (state : WorkflowState) : ExceptT TimerEnd P Unit :=
  boundaryTimerFired lib listenerNs ns state fun e =>
    if e.is .keyNotFound ∧ acks = false then .kept else .stopped

/-- Whether a message is handed back until it is due. -/
def isEarly (embargo : Int) : P Bool :=
  if embargo = 0 then .ret false
  else (Prog.perform Op.now : P Int).bind fun time =>
    .ret (Int64.ofInt embargo - Int64.ofInt time > 0)

/-- The body of the loop of `listenForTimer`: whether the worker goes on after the message. It does
not matter how the message is settled. -/
def handleTimer (lib : Lib) (listenerNs : String) (m : TimerMsg) : P Bool :=
  match lib.atoi (if m.embargo = "" then "0" else m.embargo) with
  | none => .ret true
  | some embargo => (isEarly embargo).bind fun early =>
    if early then .ret true
    else match m.data with
      | none => .ret true
      | some state =>
        if m.correlation = "" then .ret true
        else if m.subject = .elementTimedExecute then
          (boundaryTimerHandled lib listenerNs m.ns m.acks state).run.bind fun
            | .error .stopped => .ret false
            | _ => .ret true
        else (Prog.perform Op.now : P Int).bind fun time =>
          (timedExecuteProcessor lib m.ns (Int64.ofInt time) state).bind fun _ => .ret true

/-- What a fetch comes back with: an error, nothing, or one message. -/
abbrev Fetched : Type := Except Err (Option TimerMsg)

/-- A worker of `listenForTimer`, and what it fetches. It leaves a mark when it takes up a message.
At the end it still runs, unless it has returned. -/
def timerWorker (lib : Lib) (listenerNs : String) : List Fetched → P Bool
  | [] => .ret true
  | .ok (some m) :: rest => (Prog.perform (Op.mark "Messages")).bind fun _ =>
      (handleTimer lib listenerNs m).bind fun goesOn =>
        if goesOn then timerWorker lib listenerNs rest else .ret false
  | _ :: rest => timerWorker lib listenerNs rest

/-- The messages among what is fetched. -/
def delivered (fetched : List Fetched) : List TimerMsg := fetched.filterMap fun f => f.toOption.join

/-! ### What the workers rely on -/

/-- What is known of the answers to the calls. -/
abbrev Replies : Type := (o : Op) → Ans o → Prop

/-- The call neither panics nor marks anything. -/
def Op.IsCalm : Op → Prop
  | .panic | .mark _ => False
  | _ => True

/-- The calls of a program that neither panics nor marks anything, when the answers meet `A`. -/
def calm (A : Replies) : Discipline Op Ans Unit := ⟨fun _ o => o.IsCalm, fun _ o r _ => A o r⟩

/-- The program, which may fail, does not panic, and its result meets `R`. -/
abbrev Calm {ε α : Type} (A : Replies) (R : α → Prop) (x : ExceptT ε P α) : Prop :=
  Yields (calm A) R x

/-- The definition has the element. -/
def Workflow.finds (wf : Workflow) (elID : String) : Bool :=
  ((elementTable wf).lookup elID).any fun target => (isSolitaryJoin target).isSome

/-- The process has an element of the name. -/
def Workflow.names (wf : Workflow) (processId elID : String) : Bool :=
  (wf.process.lookup processId).any fun pr => ((processTable pr).lookup elID).isSome

/-- A token of the process can be sent to the element. -/
def Workflow.leadsTo (wf : Workflow) (processId elID : String) : Bool :=
  wf.finds elID && wf.names processId elID

/-- The timer of an activity can take its branch. -/
def WorkflowState.redirects (state : WorkflowState) (wf : Workflow) : Bool :=
  ((elementTable wf).lookup state.elementId).any (fun el => (splitReciprocal el).isSome) &&
    state.execute.any (wf.leadsTo state.processId)

/-- The transform of an element can be written over the variables. Those that are read as a nil map
take no value. -/
def Lib.takes (lib : Lib) (el : Element) (vars : Bytes) : Bool :=
  el.outputTransform.entries.isEmpty || lib.decode vars matches .ok (some _) | .error _

/-- The timer of a start event can start its process, along the flows `outbound`. -/
def WorkflowState.starts (lib : Lib) (state : WorkflowState) (outbound : Option Targets)
    (wf : Workflow) : Bool :=
  state.timer.isSome && ((elementTable wf).lookup state.elementId).any (fun el =>
    el.timer.isSome && (splitReciprocal el).isSome && lib.takes el state.vars &&
      decide (el.outbound = outbound)) &&
  outbound.all fun out => (chosenTargets lib state.vars out).isSome &&
    out.target.all fun t => wf.leadsTo state.processId t.target

/-- The message is about the timer of an activity. -/
def TimerMsg.onElement (m : TimerMsg) : Bool := m.subject = .elementTimedExecute

/-- The definition has what the message is about. The flows of a start event are the same whenever
the definition is read. -/
def TimerMsg.fits (lib : Lib) (flows : WorkflowState → Option Targets) (m : TimerMsg)
    (wf : Workflow) : Bool :=
  m.data.all fun state =>
    if m.onElement then state.redirects wf else state.starts lib (flows state) wf

/-- **What a worker relies on** when it makes a call about the message, in the given world. For the
timer of an activity the lookups do not fail, and the history has an entry. The definition of a
workflow, stored or cached, fits the message. -/
def TimerMsg.serviceable (lib : Lib) (flows : WorkflowState → Option Targets) (m : TimerMsg)
    (w : World) (fails : Bool) : Op → Bool
  | .kvsFor _ => !m.onElement || !fails
  | .get ⟨_, .wfProcessInstance, _⟩ => !m.onElement || !fails
  | .get ⟨ns, .wfHistory, key⟩ =>
    !m.onElement || (!fails && (w.value ⟨ns, .wfHistory, key⟩).isSome)
  | .get ⟨ns, .wf, id⟩ => (w.value ⟨ns, .wf, id⟩).all (m.fits lib flows)
  | .cacheGet id => (w.cache id).all (m.fits lib flows)
  | _ => true

/-- The answers that a worker reckons with while it handles the message. -/
def timerAnswers (F : Op → Prop) (lib : Lib) (flows : WorkflowState → Option Targets)
    (m : TimerMsg) : Replies := fun o r =>
  ∃ w w', env F o w r w' ∧ m.serviceable lib flows w (isFailure o r) o = true

variable {F : Op → Prop} {lib : Lib} {flows : WorkflowState → Option Targets} {m : TimerMsg}
  {state : WorkflowState} {wf : Workflow}
  {ns : String}

theorem timerAnswers_mapOrder {keys r : List String}
    (h : timerAnswers F lib flows m (.mapOrder keys) r) : r.Perm keys := by
  obtain ⟨w, w', henv, -⟩ := h
  exact henv.2

variable {id : String}

theorem fits_of_defines (h : Defines (calm (timerAnswers F lib flows m)) ns id wf) :
    m.fits lib flows wf = true := by
  rcases h with ⟨w, w', henv, hserved⟩ | ⟨entry, ⟨w, w', henv, hserved⟩, rfl⟩
  · obtain ⟨-, hnone | hcache⟩ := henv
    · cases hnone
    · have hall : (w.cache id).all (m.fits lib flows) = true := hserved
      rwa [← hcache] at hall
  · obtain ⟨-, ⟨-, hr⟩ | ⟨v, isNil, hv, -, hr⟩ | ⟨-, text, hr⟩⟩ := henv
    · cases hr
    · cases hr
      have hall : (w.value ⟨ns, .wf, id⟩).all (m.fits lib flows) = true := hserved
      rwa [hv] at hall
    · cases hr

theorem timerAnswers_kvsFor (hm : m.onElement = true) {r : Except Err Unit}
    (h : timerAnswers F lib flows m (.kvsFor ns) r) : r = .ok () := by
  obtain ⟨w, w', ⟨-, hr | ⟨-, text, rfl⟩⟩, hserved⟩ := h
  · exact hr
  · simp [TimerMsg.serviceable, hm, isFailure] at hserved

theorem timerAnswers_instance (hm : m.onElement = true) {r : Except Err (Entry ProcessInstance)}
    (h : timerAnswers F lib flows m (.get ⟨ns, .wfProcessInstance, id⟩) r) :
    ∀ e, r = .error e → e = .sentinel .keyNotFound := by
  obtain ⟨w, w', ⟨-, ⟨-, rfl⟩ | ⟨v, isNil, -, -, rfl⟩ | ⟨-, text, rfl⟩⟩, hserved⟩ := h
  · exact fun e he => (Except.error.inj he).symm
  · nofun
  · simp [TimerMsg.serviceable, hm, isFailure] at hserved

theorem timerAnswers_history (hm : m.onElement = true) {pi tid : String} {t : ProcessHistoryType}
    {r : Except Err (Entry ProcessHistoryEntry)}
    (h : timerAnswers F lib flows m (.get (historyLoc ns pi tid t)) r) :
    ∃ entry, r = .ok entry := by
  obtain ⟨w, w', ⟨-, ⟨hnone, rfl⟩ | ⟨v, isNil, -, -, rfl⟩ | ⟨-, text, rfl⟩⟩, hserved⟩ := h
  · rw [historyLoc] at hnone hserved
    simp [TimerMsg.serviceable, hm, isFailure, hnone] at hserved
  · exact ⟨_, rfl⟩
  · simp [TimerMsg.serviceable, hm, isFailure] at hserved

/-! ### A message that is serviceable -/

variable {targets : GoMap String} {elID : String}

/-- The branches that are chosen are flows of the element. -/
theorem mem_target_of_chosen {vars : Bytes} {out : Targets}
    (h : chosenTargets lib vars out = some (.ok targets)) {k : String}
    (hk : targets.lookup k = some elID) : ∃ t ∈ out.target, t.target = elID := by
  have htaken : ∀ {ord : Nat} {flows : List Target} {taken taken' : GoMap String},
      (∀ t ∈ flows, t ∈ out.target) →
      (∀ k elID, taken.lookup k = some elID → ∃ t ∈ out.target, t.target = elID) →
      takenTargets lib vars out.defaultTarget ord flows taken = .ok taken' →
      ∀ k elID, taken'.lookup k = some elID → ∃ t ∈ out.target, t.target = elID := by
    intro ord flows
    induction flows generalizing ord with
    | nil =>
      intro taken taken' _ hall h
      cases h
      exact hall
    | cons t rest ih =>
      intro taken taken' hflows hall h
      have hrest : ∀ t ∈ rest, t ∈ out.target := fun t ht => hflows t (mem_cons_of_mem _ ht)
      rw [takenTargets] at h
      split at h
      · exact ih hrest hall h
      · split at h
        · cases h
        · refine ih hrest (fun k elID hk => ?_) h
          split at hk
          · by_cases hid : k = t.id
            · subst hid
              rw [AList.lookup_insert] at hk
              exact ⟨t, hflows t mem_cons_self, Option.some.inj hk⟩
            · rw [AList.lookup_insert_ne hid] at hk
              exact hall k elID hk
          · exact hall k elID hk
  unfold chosenTargets at h
  split at h
  · cases h
  · rename_i taken hok
    have hall := htaken (fun _ ht => ht) (fun k elID hk => by simp at hk) hok
    split at h
    · obtain ⟨t, ht, htargets⟩ := map_eq_some_iff.1 h
      cases htargets
      by_cases hid : k = t.id
      · subst hid
        rw [AList.lookup_insert] at hk
        rw [Targets.default?] at ht
        split at ht
        · exact ⟨t, mem_of_getElem? ht, Option.some.inj hk⟩
        · cases ht
      · rw [AList.lookup_insert_ne hid] at hk
        exact hall k elID hk
    · cases h
      exact hall k elID hk

theorem Workflow.exists_of_finds (h : wf.finds elID = true) :
    ∃ target solitary, (elementTable wf).lookup elID = some target ∧ target.id = elID ∧
      isSolitaryJoin target = some solitary := by
  obtain ⟨target, htarget, hjoin⟩ := (any_eq_true _ _).1 h
  obtain ⟨solitary, hsolitary⟩ := isSome_iff_exists.1 hjoin
  exact ⟨target, solitary, htarget, indexed_elementTable wf elID target htarget, hsolitary⟩

variable {processId : String}

theorem Workflow.exists_of_names (h : wf.names processId elID = true) :
    ∃ pr el, wf.process.lookup processId = some pr ∧ (processTable pr).lookup elID = some el := by
  obtain ⟨pr, hpr, hel⟩ := (any_eq_true _ _).1 h
  obtain ⟨el, hel⟩ := isSome_iff_exists.1 hel
  exact ⟨pr, el, hpr, hel⟩

variable {trackingID : TrackingID} {reciprocalId iid : String}

section Calm

variable {A : Replies}

theorem calm_getWorkflow : Calm A (Defines (calm A) ns id) (getWorkflow ns id) :=
  yields_getWorkflow trivial trivial trivial fun _ _ => trivial

theorem calm_publish {subject : Subject} {embargo : Int} (h : subject ≠ .jobUserTaskExecute) :
    Calm A (fun _ => True) (publishWorkflowState ns subject state embargo) :=
  yields_publishWorkflowState trivial (fun _ => trivial) fun hs => absurd hs h

/-- A token is sent to an element that is there. -/
theorem calm_sendBranch {branchID : String} (hfinds : wf.finds elID = true)
    (hnames : ∀ wf', Defines (calm A) ns state.workflowId wf' →
      wf'.names state.processId elID = true) :
    Calm A (fun _ => True) (sendBranch ns trackingID (elementTable wf) state reciprocalId iid
      branchID elID) := by
  obtain ⟨target, solitary, htarget, hid, hsolitary⟩ := wf.exists_of_finds hfinds
  refine (yields_newId trivial).andThen fun newID => ?_
  refine (yields_deref_some htarget).seq ?_
  rintro _ rfl
  refine calm_getWorkflow.mapError.seq fun wf' hwf' => ?_
  obtain ⟨pr, el, hpr, hel⟩ := wf'.exists_of_names (hnames wf' hwf')
  refine (yields_deref_some hpr).seq ?_
  rintro _ rfl
  refine (yields_deref_some (hid ▸ hel)).andThen fun named => ?_
  refine (yields_deref_some hsolitary).andThen fun solitary => ?_
  exact (calm_publish (by decide)).wrap.andThen fun _ => yields_pure trivial

theorem calm_openGateway {R : WorkflowState → Prop}
    (hplain : R state) (hsplit : ∀ paths, R (state.expecting iid paths)) :
    Calm A R (openGateway ns state targets reciprocalId iid) :=
  .ite (fun _ => yields_pure hplain) fun _ => (yields_mapOrder trivial).andThen fun paths =>
    (yields_kvsFor trivial).wrap.andThen fun _ => (yields_saveObj trivial).wrap.andThen fun _ =>
    yields_pure (hsplit paths)

/-- A token leaves an element that is there, along flows to elements that are there. -/
theorem calm_traverse {outbound : Option Targets}
    (hperm : ∀ keys r, A (.mapOrder keys) r → r.Perm keys)
    (helem : ∃ el, (elementTable wf).lookup state.elementId = some el ∧
      (splitReciprocal el).isSome = true)
    (hchosen : ∀ out, outbound = some out → (chosenTargets lib state.vars out).isSome = true)
    (hfinds : ∀ out, outbound = some out → ∀ t ∈ out.target, wf.finds t.target = true)
    (hnames : ∀ out, outbound = some out → ∀ t ∈ out.target, ∀ wf',
      Defines (calm A) ns state.workflowId wf' → wf'.names state.processId t.target = true) :
    Calm A (fun _ => True) (traverse lib ns trackingID outbound (elementTable wf) state) := by
  cases outbound with
  | none => exact yields_pure trivial
  | some out =>
    obtain ⟨chosen, hchosen⟩ := isSome_iff_exists.1 (hchosen out rfl)
    obtain ⟨el, hel, hsplit⟩ := helem
    obtain ⟨reciprocalId, hreciprocal⟩ := isSome_iff_exists.1 hsplit
    refine (yields_deref_some hchosen).seq ?_
    rintro _ rfl
    refine (yields_ofExcept chosen).seq ?_
    rintro targets rfl
    refine (yields_deref_some hel).seq ?_
    rintro _ rfl
    refine (yields_deref_some hreciprocal).seq ?_
    rintro _ rfl
    refine (yields_newId trivial).andThen fun iid => ?_
    refine Yields.seq (Q := fun st => st.workflowId = state.workflowId ∧
      st.processId = state.processId) (calm_openGateway ⟨rfl, rfl⟩ fun _ => ⟨rfl, rfl⟩) ?_
    rintro st ⟨hworkflow, hprocess⟩
    refine (yields_mapOrder trivial).seq fun branches hbranches => ?_
    refine (Yields.forM fun branchID hbranch => ?_).andThen fun _ => yields_pure trivial
    -- a branch of the range is a key of the map
    have hkey : branchID ∈ targets.keys := (hperm _ _ hbranches).mem_iff.1 hbranch
    obtain ⟨elID, hlookup⟩ := isSome_iff_exists.1 (AList.lookup_isSome.2 hkey)
    obtain ⟨t, ht, rfl⟩ := mem_target_of_chosen hchosen hlookup
    rw [hlookup, getD_some]
    refine calm_sendBranch (hfinds out rfl t ht) ?_
    rw [hworkflow, hprocess]
    exact hnames out rfl t ht

end Calm

/-- The program does not panic, and does not stop the worker. -/
abbrev GoesOn {α : Type} (A : Replies) (R : α → Prop) (x : ExceptT TimerEnd P α) : Prop :=
  Yields (calm A) R x (· ≠ .stopped)

variable {A : Replies}

/-- A step whose failure leaves the message to be delivered again. -/
theorem Yields.goesOn {α : Type} {R : α → Prop} {x : Act α} (hx : Calm A R x) :
    GoesOn A R (Act.ending (fun _ => TimerEnd.kept) x) :=
  hx.endingIn fun _ _ => nofun

/-- The instance of a timer is found, or there is none. -/
theorem goesOn_timerInstance (hm : m.onElement = true) :
    GoesOn (timerAnswers F lib flows m) (fun _ => True) (timerInstance ns state) := by
  have hload : Yields (calm (timerAnswers F lib flows m)) (fun _ => True)
      (getProcessInstance ns state.processInstanceId) (·.is .processInstanceNotFound = true) := by
    refine ensures_seq (ensures_ending (ensures_perform (o := Op.kvsFor ns) trivial
      fun r hr => ?_))
    cases timerAnswers_kvsFor hm hr
    refine ensures_ending (ensures_ending (ensures_ending (ensures_seq (ensures_perform
      (o := Op.get ⟨ns, .wfProcessInstance, state.processInstanceId⟩) trivial fun r hr => ?_))))
    have hmissing := timerAnswers_instance hm hr
    cases r with
    | ok entry => exact ensures_ret trivial
    | error e =>
      cases hmissing e rfl
      exact rfl
  refine (hload.attempt.endingIn fun _ _ => nofun).seq fun r hr => ?_
  cases r with
  | ok pi => exact yields_pure trivial
  | error e =>
    exact Yields.ite (fun _ => yields_throw _ nofun) fun hother => absurd hr hother

/-- The history of a serviceable message has an entry. -/
theorem yields_timerActivity (hm : m.onElement = true) :
    Yields (calm (timerAnswers F lib flows m)) (fun _ => True) (getProcessHistoryItem ns
      state.processInstanceId (TrackingID.ID state.id) .activityExecute) fun _ => False := by
  refine ensures_seq (ensures_ending (ensures_perform (o := Op.kvsFor ns) trivial fun r hr => ?_))
  cases timerAnswers_kvsFor hm hr
  refine ensures_seq (ensures_ending (ensures_perform (o := Op.get (historyLoc ns
    state.processInstanceId (TrackingID.ID state.id) .activityExecute)) trivial fun r hr => ?_))
  obtain ⟨entry, rfl⟩ := timerAnswers_history hm hr
  exact ensures_ret trivial

variable {listenerNs : String} {acks : Bool}

/-- The timer of an activity neither panics nor stops the worker. -/
theorem goesOn_boundaryTimer (hm : m.onElement = true) (hdata : m.data = some state) :
    GoesOn (timerAnswers F lib flows m) (fun _ => True)
      (boundaryTimerHandled lib listenerNs ns acks state) := by
  have hfits : ∀ {id wf}, Defines (calm (timerAnswers F lib flows m)) ns id wf →
      state.redirects wf = true := by
    intro id wf h
    simpa [TimerMsg.fits, hdata, hm] using fits_of_defines h
  refine (yields_loadFor (b := .wfExecution) trivial trivial).mapError.goesOn.seq fun _ _ => ?_
  refine (goesOn_timerInstance hm).seq fun pi _ => ?_
  refine calm_getWorkflow.goesOn.seq fun wf hwf => ?_
  refine ((yields_timerActivity hm).endingIn fun _ h => h.elim).seq fun _ _ => ?_
  obtain ⟨hel, htarget⟩ := Bool.and_eq_true_iff.1 (hfits hwf)
  obtain ⟨target, hexecute, hleads⟩ := (any_eq_true _ _).1 htarget
  obtain ⟨el, hel, hsplit⟩ := (any_eq_true _ _).1 hel
  refine (yields_deref_some hexecute).goesOn.seq ?_
  rintro _ rfl
  refine Yields.andThen (Q := fun _ => True) (Yields.goesOn ?_) fun state' =>
    Yields.andThen (calm_publish (by decide)).goesOn fun _ => yields_pure trivial
  -- the only branch leads to the target of the timer
  have hbranch : ∀ out, some (timerTargets target) = some out → ∀ t ∈ out.target,
      t.target = target := by
    rintro _ ⟨⟩ t ht
    rw [mem_singleton.1 ht]
  refine calm_traverse (fun _ _ => timerAnswers_mapOrder) ⟨el, hel, hsplit⟩ ?_ ?_ ?_
  · rintro _ ⟨⟩
    rw [chosenTargets_timerTargets]
    rfl
  · intro out hout t ht
    rw [hbranch out hout t ht]
    exact (Bool.and_eq_true_iff.1 hleads).1
  · intro out hout t ht wf' hwf'
    obtain ⟨-, htarget'⟩ := Bool.and_eq_true_iff.1 (hfits hwf')
    obtain ⟨target', hexecute', hleads'⟩ := (any_eq_true _ _).1 htarget'
    rw [hbranch out hout t ht, Option.mem_unique hexecute hexecute']
    exact (Bool.and_eq_true_iff.1 hleads').2

/-- A transform that can be written is written, or fails. -/
theorem Lib.isSome_outputVars_of_takes {el : Element} {vars new : Bytes} {order : MapOrder}
    (h : lib.takes el vars = true) :
    (lib.outputVars order new vars el.outputTransform.field).isSome = true := by
  unfold GoMap.field
  split
  · rfl
  · rename_i hempty
    rw [Lib.takes, Bool.eq_false_iff.2 hempty, Bool.false_or] at h
    rw [Lib.outputVars]
    cases lib.readVars new with
    | error e => rfl
    | ok localVars =>
      cases hdecode : lib.decode vars with
      | error e => rfl
      | ok processVars =>
        rw [hdecode] at h
        cases processVars with
        | none => cases h
        | some acc =>
          dsimp only [Lib.encodeTransform, Lib.writeTransform]
          cases lib.evalTransform _ localVars (order.entries el.outputTransform) acc with
          | error e => rfl
          | ok vals => cases hencode : lib.encode (some vals) <;> simp [Except.map, hencode]

theorem allowsRecords_calm : AllowsRecords (calm A) ns where
  kvsFor := trivial
  get _ _ := trivial
  newId := trivial
  cacheGet _ := trivial
  cacheSet _ _ _ := trivial
  ensureBucket _ := trivial
  execution _ _ := trivial
  update _ _ _ := trivial

/-- The timer of a start event does not panic. -/
theorem calm_timedExecute (hm : m.onElement = false) (hdata : m.data = some state) {time : Int64} :
    Calm (timerAnswers F lib flows m) (fun _ => True) (timedExecute lib ns time state) := by
  have hfits : ∀ {id wf}, Defines (calm (timerAnswers F lib flows m)) ns id wf →
      state.starts lib (flows state) wf = true := by
    intro id wf h
    simpa [TimerMsg.fits, hdata, hm] using fits_of_defines h
  refine calm_getWorkflow.ending.seq fun wf hwf => ?_
  obtain ⟨hstart, hflows⟩ := Bool.and_eq_true_iff.1 (hfits hwf)
  obtain ⟨htimer, hel⟩ := Bool.and_eq_true_iff.1 hstart
  obtain ⟨timer, htimer⟩ := isSome_iff_exists.1 htimer
  obtain ⟨el, hel, hdefined⟩ := (any_eq_true _ _).1 hel
  simp only [Bool.and_eq_true, decide_eq_true_eq] at hdefined
  obtain ⟨⟨⟨htimed, hsplit⟩, htakes⟩, houtbound⟩ := hdefined
  obtain ⟨timed, htimed⟩ := isSome_iff_exists.1 htimed
  refine (yields_deref_some htimer).ending.andThen fun timer => ?_
  refine (yields_deref_some hel).ending.seq ?_
  rintro _ rfl
  refine (yields_deref_some htimed).ending.andThen fun timed => ?_
  refine Yields.ite (fun _ => yields_pure trivial) fun _ => Yields.ite (fun _ => ?_)
    fun _ => yields_pure trivial
  refine Yields.seq (Q := fun _ => True) ?_ fun _ _ => yields_pure trivial
  refine (yields_createExecution allowsRecords_calm).ending.andThen fun exec => ?_
  refine (yields_createProcessInstance allowsRecords_calm fun _ _ => trivial).ending.andThen
    fun pi => ?_
  refine (calm_publish (by decide)).ending.andThen fun processWfState => ?_
  refine (yields_recordHistory trivial fun _ _ => trivial).wrap.ending.andThen fun _ => ?_
  refine (yields_ofCall (Lib.isSome_outputVars_of_takes htakes)).ending.andThen fun vars => ?_
  refine (yields_newId trivial).ending.andThen fun id => ?_
  refine Yields.seq (Q := fun _ => True) (Yields.ending ?_) fun _ _ =>
    (calm_publish (by decide)).ending.andThen fun _ => yields_pure trivial
  have hleads : ∀ {wf}, state.starts lib (flows state) wf = true → ∀ out, el.outbound = some out →
      (chosenTargets lib state.vars out).isSome = true ∧ ∀ t ∈ out.target,
        wf.finds t.target = true ∧ wf.names state.processId t.target = true := by
    intro wf hstarts out hout
    have hflows := (Bool.and_eq_true_iff.1 hstarts).2
    simpa [← houtbound, hout, Workflow.leadsTo] using hflows
  refine calm_traverse (fun _ _ => timerAnswers_mapOrder) ⟨el, hel, hsplit⟩
    (fun out hout => (hleads (hfits hwf) out hout).1)
    (fun out hout t ht => ((hleads (hfits hwf) out hout).2 t ht).1) ?_
  exact fun out hout t ht wf' hwf' => ((hleads (hfits hwf') out hout).2 t ht).2

/-- **A serviceable message** does not stop the worker, whatever is in it. -/
theorem ensures_handleTimer :
    (calm (timerAnswers F lib flows m)).Ensures (· = true) (handleTimer lib listenerNs m) := by
  unfold handleTimer
  cases lib.atoi _ with
  | none => exact ensures_ret rfl
  | some embargo =>
    refine Ensures.bind (Q := fun _ => True) ?_ fun early _ => ?_
    · unfold isEarly
      split
      · exact ensures_ret trivial
      · exact (ensures_perform (o := Op.now) trivial fun _ _ => trivial).bind
          fun _ _ => ensures_ret trivial
    · split
      · exact ensures_ret rfl
      cases hdata : m.data with
      | none => exact ensures_ret rfl
      | some state =>
        dsimp only
        split
        · exact ensures_ret rfl
        split
        · rename_i hsubject
          have hm : m.onElement = true := decide_eq_true hsubject
          refine Ensures.bind (goesOn_boundaryTimer hm hdata) fun r hr => ?_
          split
          · exact absurd rfl hr
          · exact ensures_ret rfl
        · rename_i hsubject
          have hm : m.onElement = false := decide_eq_false hsubject
          refine (ensures_perform (o := Op.now) (Q := fun _ => True) trivial
            fun _ _ => trivial).bind fun time _ => ?_
          refine Ensures.bind (Q := fun _ => True) ?_ fun _ _ => ensures_ret rfl
          refine Ensures.bind (calm_timedExecute hm hdata) fun r _ => ?_
          cases r <;> exact ensures_ret trivial

/-! ### All messages -/

/-- The message that a worker handles after it has taken up `n` messages. -/
def current (ms : List TimerMsg) : Nat → Option TimerMsg
  | 0 => none
  | n + 1 => ms[n]?

/-- The worker takes up a message. -/
def Op.takesUp : Op → Bool
  | .mark f => f = "Messages"
  | _ => false

/-- The calls of a worker that does not panic. The state counts the messages it has taken up. -/
def timerDiscipline (F : Op → Prop) (lib : Lib) (flows : WorkflowState → Option Targets)
    (ms : List TimerMsg) : Discipline Op Ans Nat where
  may _ o := o ≠ .panic
  step n o r n' := n' = (if o.takesUp then n + 1 else n) ∧ ∃ w w', env F o w r w' ∧
    (current ms n).all (fun m => m.serviceable lib flows w (isFailure o r) o) = true

theorem delivered_cons_message (m : TimerMsg) (rest : List Fetched) :
    delivered (.ok (some m) :: rest) = m :: delivered rest := rfl

/-- **A worker keeps running** while the messages it has fetched are serviceable. -/
theorem keeps_timerWorker {ms : List TimerMsg} (fetched : List Fetched)
    (n : Nat) (hms : ms.drop n = delivered fetched) :
    (timerDiscipline F lib flows ms).Keeps (fun _ goesOn => goesOn = true) n
      (timerWorker lib listenerNs fetched) := by
  induction fetched generalizing n with
  | nil => exact keeps_ret.2 rfl
  | cons f rest ih =>
    match f with
    | .error e => exact ih n hms
    | .ok none => exact ih n hms
    | .ok (some m) =>
      rw [delivered_cons_message] at hms
      have hcurrent : current ms (n + 1) = some m := by
        have := congrArg List.head? hms
        rwa [List.head?_drop, List.head?_cons] at this
      have hrest : ms.drop (n + 1) = delivered rest := by
        rw [← tail_drop, hms, tail_cons]
      refine keeps_bind.2 (keeps_call.2 ⟨nofun, fun r n' hstep => keeps_ret.2 ?_⟩)
      obtain rfl : n' = n + 1 := hstep.1
      refine Keeps.bind (Ensures.embed (I := (· = n + 1)) ?_ ?_
        (@ensures_handleTimer F lib flows m listenerNs) rfl) ?_
      · rintro _ o - hmay rfl
        exact hmay
      · rintro l o r l' rfl hmay ⟨hl', w, w', henv, hserved⟩
        rw [hcurrent] at hserved
        refine ⟨⟨w, w', henv, hserved⟩, ?_⟩
        rw [hl']
        cases o with
        | mark f => exact hmay.elim
        | _ => rfl
      · rintro l goesOn ⟨rfl, rfl⟩
        exact ih (n + 1) hrest

section Workers

variable {κ : Type} [DecidableEq κ] {concurrency : Nat}

/-- The workers, and anything else that uses the store. -/
def timerThreads (lib : Lib) (listenerNs : String) (fetched : Fin concurrency → List Fetched)
    (others : κ → P Bool) : Fin concurrency ⊕ κ → P Bool :=
  Sum.elim (fun i => timerWorker lib listenerNs (fetched i)) others

/-- How many messages the thread has taken up. -/
def takenUp {ι : Type} [DecidableEq ι] (i : ι) (t : List (WEvent ι)) : Nat :=
  t.countP fun e => decide (e.thread = i) && e.op.takesUp

/-- The step is made for a message that is serviceable, if it is one of a worker. -/
def timerStep (lib : Lib) (flows : WorkflowState → Option Targets)
    (fetched : Fin concurrency → List Fetched) (e : WEvent (Fin concurrency ⊕ κ))
    (t : List (WEvent (Fin concurrency ⊕ κ))) : Bool :=
  match e.thread with
  | .inl i => (current (delivered (fetched i)) (takenUp (.inl i) t)).all fun m =>
      m.serviceable lib flows e.before (isFailure e.op e.answer) e.op
  | .inr _ => true

/-- The worker has neither returned nor panicked. -/
def stillRuns (p : P Bool) : Bool := !panicked p && p.result? != some false

/-- The number of workers that still run. -/
def runningWorkers (c : Config (Fin concurrency ⊕ κ) Op Ans World Bool) : Nat :=
  (List.finRange concurrency).countP fun i => stillRuns (c.threads (.inl i))

theorem takenUp_cons {ι : Type} [DecidableEq ι] (i : ι) (e : WEvent ι) (t : List (WEvent ι)) :
    takenUp i (e :: t) = if e.thread = i ∧ e.op.takesUp = true then takenUp i t + 1
      else takenUp i t := by
  rw [takenUp, countP_cons]
  split <;> rename_i h <;> simp_all [takenUp]

/-- A worker that makes its steps for serviceable messages still runs. -/
theorem stillRuns_of_steps {F : Op → Prop} {lib : Lib}
    {flows : WorkflowState → Option Targets} {fetched : Fin concurrency → List Fetched}
    {others : κ → P Bool} {w : World} {c : Config (Fin concurrency ⊕ κ) Op Ans World Bool}
    (hrun : Run (env F) (.start w (timerThreads lib listenerNs fetched others)) c)
    (hsteps : Guarded (fun e t => timerStep lib flows fetched e t = true) c.trace)
    (i : Fin concurrency) : stillRuns (c.threads (.inl i)) = true := by
  have hkeeps : (timerDiscipline F lib flows (delivered (fetched i))).Keeps
      (fun _ goesOn => goesOn = true) (takenUp (.inl i) c.trace) (c.threads (.inl i)) := by
    have hworker : (timerDiscipline F lib flows (delivered (fetched i))).Keeps
        (fun _ goesOn => goesOn = true) 0 (timerThreads lib listenerNs fetched others (.inl i)) :=
      keeps_timerWorker (fetched i) 0 rfl
    refine (hworker.tracked (takenUp (.inl i)) (fun e t he => ?_) hrun
      (hsteps.imp fun e t hstep he s' henv => ?_)).1
    · rw [takenUp_cons, if_neg fun h => he h.1]
    · refine ⟨?_, e.before, s', henv, ?_⟩
      · simp [takenUp_cons, he]
      · rwa [timerStep, he] at hstep
  have hprogress := hkeeps.progress
  cases hthread : c.threads (.inl i) with
  | ret goesOn =>
    rw [hthread] at hprogress
    obtain rfl : goesOn = true := hprogress
    rfl
  | call o k =>
    rw [hthread] at hprogress
    have hpanic : o ≠ .panic := hprogress.1
    cases o with
    | panic => exact absurd rfl hpanic
    | _ => rfl
  | loop x body k => rfl

/-- **The workers keep running**: in every run of the workers and of anything else that uses the
store, where the calls in `F` may fail, no worker has returned or panicked, as long as the steps of
the workers are made for serviceable messages. -/
theorem timerWorkers_keep_running (F : Op → Prop) (lib : Lib) (listenerNs : String)
    (flows : WorkflowState → Option Targets) (fetched : Fin concurrency → List Fetched)
    (others : κ → P Bool) (w : World) {c : Config (Fin concurrency ⊕ κ) Op Ans World Bool}
    (hrun : Run (env F) (.start w (timerThreads lib listenerNs fetched others)) c)
    (hsteps : Guarded (fun e t => timerStep lib flows fetched e t = true) c.trace) :
    runningWorkers c = concurrency := by
  rw [runningWorkers, List.countP_eq_length.2 fun i _ => stillRuns_of_steps hrun hsteps i,
    List.length_finRange]

end Workers

/-! ### The timer of a review -/

/-- The libraries, where every number is read as zero. -/
def zeroLib : Lib := { constLib ∅ with atoi := fun _ => some 0 }

/-- The message of the timer of a review, for an activity of the process instance. -/
def reviewMsg (activity : String) : TimerMsg where
  subject := .elementTimedExecute
  ns := "default"
  correlation := "cid"
  data := some { reviewTimer with id := ["instance", activity] }

/-- One worker, which fetches the message. -/
def reviewThreads (activity : String) : Fin 1 ⊕ Empty → P Bool :=
  timerThreads zeroLib "default" (fun _ => [.ok none, .ok (some (reviewMsg activity))]) Empty.elim

/-- The worker that handles the timer of the open task goes on. -/
theorem timerWorkers_review : ∃ c : Config (Fin 1 ⊕ Empty) Op Ans World Bool,
    Run (env noFault) (.start (reviewWorld "default") (reviewThreads "activity")) c ∧
      (c.threads (.inl 0)).result? = some true ∧ runningWorkers c = 1 := by
  obtain ⟨c, hrun, hreturned, hguard⟩ := exists_run_of_reaches noFault
    (Config.start (reviewWorld "default") (reviewThreads "activity"))
    (List.replicate 22 (.inl 0, Choice.ok))
    (fun c => (c.threads (.inl 0)).result? = some true ∧
      Guarded (fun e t => timerStep zeroLib (fun _ => none)
        (fun _ : Fin 1 => [.ok none, .ok (some (reviewMsg "activity"))]) e t = true) c.trace)
    (by decide +kernel)
  exact ⟨c, hrun, hreturned, timerWorkers_keep_running noFault zeroLib "default"
    (fun _ => none) _ Empty.elim _ hrun hguard⟩

/-- **A worker returns** after the timer of an activity that is not in the history. No call has
failed, and the message is acknowledged. -/
theorem timerWorker_returns : ∃ c : Config (Fin 1 ⊕ Empty) Op Ans World Bool,
    Run (env noFault) (.start (reviewWorld "default") (reviewThreads "gone")) c ∧
      (c.threads (.inl 0)).result? = some false ∧ runningWorkers c = 0 :=
  exists_run_of_reaches noFault _ (List.replicate 11 (.inl 0, Choice.ok)) _
    (by decide +kernel)

end SharWorkflow
