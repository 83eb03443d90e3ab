import SharWorkflow.Engine.TimedStart
import SharWorkflow.Engine.Registry
import SharWorkflow.Engine.Alone
import SharWorkflow.Launch.Conduct

/-!
# The messages of a timed start

What one delivery of a message of a timed start does, when no call fails: the answer is the one that
the definition of the timer calls for; if the timer fires, one process is started and one message is
sent, the next one of the timer; otherwise nothing is sent.

* `timedConduct`: the conduct under which the handler is followed. Its state is what was published.
* `leads_timedExecute`: the handler.
* `TimedStart.Delivers`: one delivery, in any world in which the definition of the workflow is
  known.
* `TimedStart.Delivers.spec`: **what a delivery does**.
-/

namespace SharWorkflow

open Concurrent Discipline Conduct Function World

/-! ### What a delivery publishes -/

/-- Whoever holds a definition under the id holds this one. -/
structure World.DefinesOnly (w : World) (id : String) (wf : Workflow) : Prop where
  stored : ∀ {ns : String} {v : Workflow}, w.value ⟨ns, .wf, id⟩ = some v → v = wf
  cached : ∀ {v : Workflow}, w.cache id = some v → v = wf

/-- The message of a timed start that is sent by `m`. -/
def Msg.timedState? : Msg → Option WorkflowState
  | ⟨_, .timedExecute, .state state, _⟩ => some state
  | _ => none

theorem Msg.timedState?_eq_none {m : Msg} (h : m.subject ≠ .timedExecute) :
    m.timedState? = none := by
  unfold Msg.timedState?
  split
  · exact absurd rfl h
  · rfl

/-- The message starts a process. -/
def Msg.startsProcess (m : Msg) : Bool := m.subject = .processExecute

/-- The messages hold the given number of process starts, and these messages of timed starts. -/
structure Carries (messages : List Msg) (starts : Nat) (timers : List WorkflowState) : Prop where
  starts : messages.countP Msg.startsProcess = starts
  timers : messages.filterMap Msg.timedState? = timers

/-- The handler of a timed start: the definition is known, definitions are not touched, and the
messages are written down. No call fails. -/
def timedConduct (id : String) (wf : Workflow) : Conduct (List Msg) where
  mayWrite _ loc _ := loc.bucket ≠ .wf
  mayDelete _ loc := loc.bucket ≠ .wf
  holds _
    | ⟨_, .wf, id'⟩, wf' => id' = id → wf' = wf
    | _, _ => True
  defines id' wf' := id' = id → wf' = wf
  holds_defines h := h
  faulty _ := False
  published messages m := m :: messages

/-- What holds while the handler runs. -/
structure TimedInv (id : String) (wf : Workflow) (log : List Msg) (w : World)
    (messages : List Msg) :
    Prop where
  log : w.log = messages ++ log
  defines : w.DefinesOnly id wf

theorem World.DefinesOnly.congr {w w' : World} {id : String} {wf : Workflow}
    (h : w.DefinesOnly id wf) (hvalue : ∀ ns, w'.value ⟨ns, .wf, id⟩ = w.value ⟨ns, .wf, id⟩)
    (hcache : w'.cache = w.cache) : w'.DefinesOnly id wf where
  stored hv := h.stored ((hvalue _).symm.trans hv)
  cached hv := h.cached (hcache ▸ hv)

theorem enforced_timedConduct (id : String) (wf : Workflow) (log : List Msg) :
    (timedConduct id wf).Enforced noFault (fun _ _ => True)
      (fun s _ g => TimedInv id wf log s (g ())) () where
  holds {s t g loc v} hinv hv := by
    obtain ⟨ns, b, key⟩ := loc
    cases b with
    | wf =>
      intro hkey
      obtain rfl : key = id := hkey
      exact hinv.defines.stored hv
    | _ => trivial
  absent _ _ := trivial
  defines hinv hv := by
    rintro rfl
    exact hinv.defines.cached hv
  allows _ _ := trivial
  faulty _ h := h.elim
  idle {s t g o r s'} hinv henv hidle _ := by
    obtain ⟨hstore, hlog, hcache⟩ := same_of_isIdle henv hidle
    refine ⟨hlog.trans hinv.log, hinv.defines.congr (fun ns => ?_) hcache⟩
    rw [World.value, hstore, World.value]
  fail _ h := h.elim
  read hinv _ _ := by
    rw [update_self]
    exact hinv
  write {s t g loc v o r} hinv hmay _ _ := by
    rw [update_self]
    refine ⟨hinv.log, hinv.defines.congr (fun ns => put_value_of_ne _ _ ?_) rfl⟩
    rintro rfl
    exact hmay rfl
  delete {s t g loc} hinv hmay _ := by
    rw [update_self]
    refine ⟨hinv.log, hinv.defines.congr (fun ns => World.clear_value_of_ne _ ?_) rfl⟩
    rintro rfl
    exact hmay rfl
  publish {s t g m} hinv _ _ := by
    rw [update_self]
    exact ⟨congrArg (m :: ·) hinv.log, hinv.defines.congr (fun _ => rfl) rfl⟩
  cache {s t g id' wf' s'} hinv hdefines henv _ := by
    rcases henv with rfl | rfl
    · exact hinv
    · refine ⟨hinv.log, hinv.defines.stored, fun {v} hv => ?_⟩
      have hv : Function.update s.cache id' (some wf') id = some v := hv
      by_cases hid : id' = id
      · subst hid
        rw [update_self] at hv
        exact (Option.some.inj hv).symm.trans (hdefines rfl)
      · rw [update_of_ne (Ne.symm hid)] at hv
        exact hinv.defines.cached hv

namespace Carries

variable {messages : List Msg} {starts : Nat} {timers : List WorkflowState} {m : Msg}

theorem nil : Carries [] 0 [] := ⟨rfl, rfl⟩

theorem start (h : Carries messages starts timers) (hm : m.subject = .processExecute) :
    Carries (m :: messages) (starts + 1) timers where
  starts := by simp [Msg.startsProcess, hm, h.starts]
  timers := by simp [Msg.timedState?_eq_none, hm, h.timers]

theorem traversal (h : Carries messages starts timers) (hm : m.subject = .traversalExecute) :
    Carries (m :: messages) starts timers where
  starts := by simp [Msg.startsProcess, hm, h.starts]
  timers := by simp [Msg.timedState?_eq_none, hm, h.timers]

theorem timer {ns : String} {state : WorkflowState} {embargo : Int}
    (h : Carries messages starts timers) :
    Carries (⟨ns, .timedExecute, .state state, embargo⟩ :: messages) starts (state :: timers) :=
  ⟨by simp [Msg.startsProcess, h.starts], by simp [Msg.timedState?, h.timers]⟩

end Carries

section

variable {lib : Lib} {ns id : String} {wf : Workflow} {messages : List Msg} {E : List Msg → Prop}

theorem unmoved_timedConduct : (timedConduct id wf).Unmoved :=
  ⟨fun _ _ => rfl, fun _ _ => rfl, fun _ => rfl⟩

/-- A traversal starts no process, and sends no message of a timed start. -/
theorem leads_traversal {starts : Nat} {timers : List WorkflowState}
    (h : Carries messages starts timers) {trackingID : TrackingID} {outbound : Option Targets}
    {els : GoMap Element} {state : WorkflowState} :
    (timedConduct id wf).Leads (fun l _ => Carries l starts timers) (fun _ => True) messages
      (traverse lib ns trackingID outbound els state) :=
  unmoved_timedConduct.leads_traverse_of_inv h (fun _ _ => nofun)
    (fun _ hl _ _ => ⟨trivial, hl.traversal rfl⟩) fun _ _ => trivial

/-- **A timer that fires** starts one process and sends one message: the next one of the timer, with
other variables. -/
theorem leads_fireTimedStart {el : Element} {state newTimer : WorkflowState} {fireNext : Int64} :
    (timedConduct id wf).Leads
      (fun l _ => ∃ vars t, Carries l 1 [{ newTimer with vars := vars }.stamped t])
      (fun _ => True) []
      (fireTimedStart lib ns wf el state newTimer fireNext) := by
  have hprocess : Subject.processExecute ≠ .jobUserTaskExecute := by decide
  have htimed : Subject.timedExecute ≠ .jobUserTaskExecute := by decide
  have hrecords : AllowsRecords ((timedConduct id wf).still []) ns :=
    allowsRecords_still fun _ _ => by rintro ⟨⟩
  refine leads_seq.2 (keeps_ending.2 ((unmoved_timedConduct.leads_of_yields
    (yields_createExecution hrecords)).mono ?_))
  rintro _ (e | exec) ⟨rfl, -⟩
  · trivial
  refine leads_seq.2 (keeps_ending.2 ((unmoved_timedConduct.leads_of_yields
    (yields_createProcessInstance hrecords fun _ _ => ⟨by rintro ⟨⟩, trivial⟩)).mono ?_))
  rintro _ (e | _) ⟨rfl, newPi, rfl⟩
  · trivial
  refine leads_seq.2 (keeps_ending.2 ((keeps_publishWorkflowState hprocess).2 fun t =>
    ⟨trivial, ?_, False.elim⟩))
  refine leads_seq.2 (keeps_ending.2 (keeps_wrap.2 (keeps_recordHistory.2 ⟨by rintro ⟨⟩, ?_,
    False.elim⟩)))
  refine leads_seq.2 (keeps_ending.2 (keeps_ofCall.2 fun result _ => ?_))
  have hstarted := Carries.nil.start (m := stateMsg ns .processExecute { state with
    executionId := exec.executionId
    processInstanceId := newPi
    id := (TrackingID.push [] exec.executionId).push newPi } t 0) rfl
  cases result with
  | error e => trivial
  | ok vars =>
    refine leads_seq.2 (keeps_ending.2 (keeps_newId.2 fun newID _ _ => ?_))
    refine leads_seq.2 (keeps_ending.2 ((leads_traversal hstarted).mono fun l r hl => ?_))
    cases r with
    | error e => trivial
    | ok _ =>
      exact leads_seq.2 (keeps_ending.2 ((keeps_publishWorkflowState htimed).2 fun t' =>
        ⟨trivial, keeps_pure.2 ⟨vars, t', hl.timer⟩, False.elim⟩))

end

/-- What the definition says about a message that is received at the time `now`. -/
def WorkflowTimerDefinition.outcome (definition : WorkflowTimerDefinition)
    (lastFired count now : Int64) : TimedOutcome :=
  if definition.spent count then .spent
  else if definition.due lastFired now then .fired
  else definition.early lastFired now

/-- A timed start event of a workflow. -/
structure TimedStart where
  lib : Lib
  ns : String
  id : String
  wf : Workflow
  pr : Process
  el : Element
  definition : WorkflowTimerDefinition
  found : (elementTable wf).lookup el.id = some el
  timer : el.timer = some definition

namespace TimedStart

variable {T : TimedStart}

/-- A message of the timer, which has last fired at the given time, and as often as given. -/
structure Message (T : TimedStart) (lastFired count : Int64) (m : WorkflowState) : Prop where
  workflowId : m.workflowId = T.id
  elementId : m.elementId = T.el.id
  timer : m.timer = some ⟨lastFired.toInt, count.toInt⟩

/-- The messages by which a delivery is followed. -/
inductive Follows (T : TimedStart) (count now : Int64) : TimedOutcome → List Msg → Prop
  | fired {messages : List Msg} {next : WorkflowState} (carries : Carries messages 1 [next])
      (message : T.Message now (count + 1) next) : Follows T count now .fired messages
  | other {messages : List Msg} {outcome : TimedOutcome} (carries : Carries messages 0 [])
      (hne : outcome ≠ .fired) : Follows T count now outcome messages

theorem leads_timedExecute {lastFired count now : Int64} {m : WorkflowState}
    (h : T.Message lastFired count m) : (timedConduct T.id T.wf).Leads (fun l outcome =>
        outcome = T.definition.outcome lastFired count now ∧ T.Follows count now outcome l)
      (fun _ => True) [] (timedExecute T.lib T.ns now m) := by
  refine leads_seq.2 (keeps_ending.2 ((keeps_getWorkflow rfl).2 ⟨fun wf hwf => ?_, fun _ => trivial,
    False.elim⟩))
  obtain rfl : wf = T.wf := hwf h.workflowId
  refine leads_seq.2 (keeps_ending.2 (keeps_deref.2 fun timer htimer => ?_))
  obtain rfl : timer = ⟨lastFired.toInt, count.toInt⟩ := Option.mem_unique htimer h.timer
  refine leads_seq.2 (keeps_ending.2 (keeps_deref.2 fun el hel => ?_))
  rw [h.elementId] at hel
  obtain rfl : el = T.el := Option.mem_unique hel T.found
  refine leads_seq.2 (keeps_ending.2 (keeps_deref.2 fun definition hdefinition => ?_))
  obtain rfl : definition = T.definition := Option.mem_unique hdefinition T.timer
  simp only [mapError_ok, outcome_ok, Int64.ofInt_toInt]
  rw [WorkflowTimerDefinition.outcome]
  by_cases hspent : T.definition.spent count = true
  · rw [if_pos hspent, if_pos hspent]
    exact keeps_pure.2 ⟨rfl, .other .nil (by simp)⟩
  · rw [if_neg hspent, if_neg hspent]
    by_cases hdue : T.definition.due lastFired now = true
    · rw [if_pos hdue, if_pos hdue]
      refine leads_seq.2 (leads_fireTimedStart.mono fun l r hr => ?_)
      cases r with
      | error e => trivial
      | ok _ =>
        obtain ⟨vars, t, hcarries⟩ := hr
        exact keeps_pure.2 ⟨rfl, .fired hcarries ⟨h.workflowId, h.elementId, rfl⟩⟩
    · rw [if_neg hdue, if_neg hdue]
      refine keeps_pure.2 ⟨rfl, .other .nil ?_⟩
      unfold WorkflowTimerDefinition.early
      split
      · simp
      · simp

/-- A delivery of a message: when it is received, how it is answered, how many processes it starts
and which messages of timed starts it sends. -/
structure Delivery where
  time : Int64
  message : WorkflowState
  answer : TimedAnswer
  starts : Nat
  timers : List WorkflowState

/-- The delivery is one that `timedExecuteProcessor` makes, with no call failing: it has an outcome,
and the answer is the one for it. -/
def Delivers (T : TimedStart) (δ : Delivery) : Prop :=
  ∃ w w' messages outcome, w.DefinesOnly T.id T.wf ∧
    Exec (env noFault) w (timedExecute T.lib T.ns δ.time δ.message).run w'
      (.ok outcome) ∧
    δ.answer = outcome.answer ∧ w'.log = messages ++ w.log ∧ Carries messages δ.starts δ.timers

/-- **What a delivery does** is what the definition says. -/
theorem Delivers.spec {δ : Delivery} (h : T.Delivers δ) {lastFired count : Int64}
    (hm : T.Message lastFired count δ.message) :
    δ.answer = (T.definition.outcome lastFired count δ.time).answer ∧
      (T.definition.outcome lastFired count δ.time = .fired →
        δ.starts = 1 ∧ ∃ next, δ.timers = [next] ∧ T.Message δ.time (count + 1) next) ∧
      (T.definition.outcome lastFired count δ.time ≠ .fired → δ.starts = 0 ∧ δ.timers = []) := by
  obtain ⟨w, w', messages, outcome, hdefines, hexec, hanswer, hlog, hcarries⟩ := h
  obtain ⟨messages', ⟨hlog', -⟩, houtcome, hfollows⟩ := (enforced_timedConduct T.id T.wf w.log).exec
    (leads_timedExecute hm) ⟨rfl, hdefines⟩ hexec
  obtain rfl : messages = messages' := List.append_cancel_right (hlog.symm.trans hlog')
  rw [← houtcome]
  refine ⟨hanswer, ?_, ?_⟩
  · rintro rfl
    cases hfollows with
    | @fired _ next hcarries' hnext =>
      exact ⟨hcarries.starts.symm.trans hcarries'.starts, next,
        hcarries.timers.symm.trans hcarries'.timers, hnext⟩
    | other _ hne => exact absurd rfl hne
  · intro hne
    cases hfollows with
    | fired => exact absurd rfl hne
    | other hcarries' _ =>
      exact ⟨hcarries.starts.symm.trans hcarries'.starts,
        hcarries.timers.symm.trans hcarries'.timers⟩

end TimedStart

end SharWorkflow
