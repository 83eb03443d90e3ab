import SharWorkflow.Nats.Conduct
import SharWorkflow.Engine.Rules

/-!
# The conduct of the operations

Weakest preconditions for the operations that the handlers are built from, in the terms of
`Nats/Conduct.lean`.
-/

namespace SharWorkflow

open Concurrent Discipline

-- sequences are split by `keeps_seq`
attribute [-simp] ExceptT.run_bind

/-- A job goes by the ids of the state it is started for, with one id of its own on the stack. -/
structure StartedFrom (state job : WorkflowState) (tid : String) : Prop where
  id : job.id = TrackingID.push state.id tid
  processInstanceId : job.processInstanceId = state.processInstanceId

namespace Conduct

variable {L α : Type} {C : Conduct L} {l : L} {ns : String}

/-! ### Publishing -/

variable {Q : L → Except Err Unit → Prop}

@[simp]
theorem keeps_publishMsg {m : Msg} :
    C.Keeps Q l (publishMsg m).run ↔ C.mayPublish l m ∧ Q (C.published l m) (.ok ()) ∧
        (C.faulty l → ∀ text, Q (C.failed l) (.error (.nats text))) :=
  (keeps_perform (o := .publish m)).trans (and_congr_right' forall_answer)

variable {state : WorkflowState}

/-- A state that starts no user task is published by one message. -/
@[simp]
theorem keeps_publishWorkflowState {subject : Subject} {embargo : Int}
    {Q : L → Except Err WorkflowState → Prop} (hsubject : subject ≠ .jobUserTaskExecute) :
    C.Keeps Q l (publishWorkflowState ns subject state embargo).run ↔
      ∀ time, C.mayPublish l (stateMsg ns subject state time embargo) ∧
        Q (C.published l (stateMsg ns subject state time embargo)) (.ok (state.stamped time)) ∧
        (C.faulty l → ∀ text,
          Q (C.failed l) (.error (.wrap "publish workflow state message" (.nats text)))) := by
  simp [publishWorkflowState, hsubject, stateMsg]

/-! ### Workflow definitions -/

variable {id : String}

theorem keeps_cacheGet {Q : L → Except Err (Option Workflow) → Prop} :
    C.Keeps Q l (cacheGet id).run ↔
      Q l (.ok none) ∧ ∀ wf, C.defines id wf → Q l (.ok (some wf)) := by
  refine keeps_bind.trans ((keeps_perform (o := .cacheGet id)).trans
    ⟨fun ⟨_, h⟩ => ⟨keeps_ret.1 (h none l ⟨nofun, rfl⟩), fun wf hwf => keeps_ret.1
      (h (some wf) l ⟨fun wf' h' => Option.some.inj h' ▸ hwf, rfl⟩)⟩, fun ⟨hnone, hsome⟩ =>
      ⟨trivial, ?_⟩⟩)
  rintro (_ | wf) l' ⟨hdefines, rfl⟩
  · exact keeps_ret.2 hnone
  · exact keeps_ret.2 (hsome wf (hdefines wf rfl))

theorem keeps_cacheSet {wf : Workflow} :
    C.Keeps Q l (cacheSet id wf).run ↔ C.defines id wf ∧ Q l (.ok ()) := by
  refine keeps_bind.trans ((keeps_perform (o := .cacheSet id wf)).trans
    ⟨fun ⟨hmay, h⟩ => ⟨hmay, keeps_ret.1 (h () l rfl)⟩, fun ⟨hmay, h⟩ => ⟨hmay, ?_⟩⟩)
  rintro ⟨⟩ l' rfl
  exact keeps_ret.2 h

/-- The object is loaded, or there is none, or a call has failed. -/
@[simp]
theorem keeps_loadFor (loc : Loc) {missing failed : String} {absent : Sentinel}
    {Q : L → Except Err loc.Val → Prop} :
    C.Keeps Q l (loadFor loc missing absent failed).run ↔
      (∀ v, C.holds l loc v → Q (C.noted l loc) (.ok v)) ∧
        (C.absent l loc → Q l (.error (.wrap missing (.sentinel absent)))) ∧
        (C.faulty l → ∀ text,
          Q (C.failed l) (.error (.wrap ("get KVs for ns " ++ loc.ns) (.nats text))) ∧
            Q (C.failed l) (.error (.wrap failed (loadFailed loc text)))) := by
  simp only [loadFor, keeps_seq, keeps_nsKVs, keeps_mapError, keeps_loadObj, mapError_ok,
    mapError_error]
  constructor
  · rintro ⟨⟨hok, hmissing, hfail⟩, hkvs⟩
    exact ⟨hok, hmissing, fun hfaulty text => ⟨hkvs hfaulty text, hfail hfaulty text⟩⟩
  · rintro ⟨hok, hmissing, hfail⟩
    exact ⟨⟨hok, hmissing, fun hfaulty text => (hfail hfaulty text).2⟩,
      fun hfaulty text => (hfail hfaulty text).1⟩

theorem keeps_entryOf {loc : Loc} {text text' : String} {Q : L → Except Err loc.Val → Prop} :
    C.Keeps Q l (Act.wrap text (kvsFor ns) >>= fun _ => Act.wrap text' (kvGet loc) >>= fun entry =>
      pure entry.value).run ↔ (∀ v, C.holds l loc v → Q (C.noted l loc) (.ok v)) ∧
        (C.absent l loc → Q l (.error (.wrap text' (.sentinel .keyNotFound)))) ∧
        (C.faulty l → ∀ t, Q (C.failed l) (.error (.wrap text (.nats t))) ∧
          Q (C.failed l) (.error (.wrap text' (.nats t)))) := by
  simp only [keeps_seq, keeps_wrap, keeps_kvsFor, keeps_kvGet, keeps_pure, mapError_ok,
    mapError_error]
  constructor
  · rintro ⟨⟨hok, hmissing, hfail⟩, hkvs⟩
    exact ⟨fun v hv => hok ⟨v, false, 0⟩ hv, hmissing,
      fun hfaulty text => ⟨hkvs hfaulty text, hfail hfaulty text⟩⟩
  · rintro ⟨hok, hmissing, hfail⟩
    exact ⟨⟨fun entry hv => hok entry.value hv, hmissing, fun hfaulty text =>
      (hfail hfaulty text).2⟩, fun hfaulty text => (hfail hfaulty text).1⟩

@[simp]
theorem keeps_getProcessHistoryItem {pi tid : String} {historyType : ProcessHistoryType}
    {Q : L → Except Err ProcessHistoryEntry → Prop} :
    C.Keeps Q l (getProcessHistoryItem ns pi tid historyType).run ↔
      (∀ v, C.holds l (historyLoc ns pi tid historyType) v →
          Q (C.noted l (historyLoc ns pi tid historyType)) (.ok v)) ∧
        (C.absent l (historyLoc ns pi tid historyType) →
          Q l (.error (.wrap "get history entry" (.sentinel .keyNotFound)))) ∧ (C.faulty l → ∀ text,
          Q (C.failed l) (.error (.wrap "get key value stores for namespace" (.nats text))) ∧
            Q (C.failed l) (.error (.wrap "get history entry" (.nats text)))) :=
  @keeps_entryOf L C l ns (historyLoc ns pi tid historyType) _ _ Q

/-- The error of `GetWorkflow` when a call fails. -/
def workflowFailed (workflowID : String) (e : Err) : Err :=
  .wrap "error caching GetWorkflow"
    (.wrap ("error retrieving cacheable value for key " ++ workflowID) e)

@[simp]
theorem keeps_getWorkflow {Q : L → Except Err Workflow → Prop}
    (hnoted : C.noted l ⟨ns, .wf, id⟩ = l) : C.Keeps Q l (getWorkflow ns id).run ↔
      (∀ wf, C.defines id wf → Q l (.ok wf)) ∧
        (C.absent l ⟨ns, .wf, id⟩ → Q l (.error (workflowMissing id))) ∧ (C.faulty l → ∀ text,
          Q (C.failed l) (.error (workflowFailed id (.wrap ("get KVs for ns " ++ ns)
            (.nats text)))) ∧
          Q (C.failed l) (.error (workflowFailed id (.wrap "load workflow from KV"
            (loadFailed ⟨ns, .wf, id⟩ text))))) := by
  simp only [getWorkflow, loadWorkflow, keeps_wrap, keeps_seq, keeps_cacheGet,
    keeps_loadFor ⟨_, .wf, _⟩, keeps_cacheSet, keeps_pure, mapError_ok, mapError_error, hnoted]
  constructor
  · rintro ⟨⟨-, hmissing, hfail⟩, hok⟩
    exact ⟨hok, hmissing, hfail⟩
  · rintro ⟨hok, hmissing, hfail⟩
    exact ⟨⟨fun wf hwf => ⟨C.holds_defines hwf, hok wf (C.holds_defines hwf)⟩, hmissing, hfail⟩,
      hok⟩

/-! ### History -/

@[simp]
theorem keeps_recordHistory {historyType : ProcessHistoryType} :
    C.Keeps Q l (recordHistory ns state historyType).run ↔
      C.mayWrite l (historyLoc ns state.processInstanceId (TrackingID.ID state.id) historyType)
          (historyEntry state historyType) ∧
        Q (C.wrote l (historyLoc ns state.processInstanceId (TrackingID.ID state.id) historyType))
          (.ok ()) ∧ (C.faulty l → ∀ text,
          Q (C.failed l) (.error (.wrap ("get KVs for ns " ++ ns) (.nats text))) ∧
            Q (C.failed l) (.error (.workflowFatal (.wrap "recording history"
              (.wrap "save kv" (.nats text))) none))) := by
  simp only [recordHistory, keeps_seq, keeps_nsKVs, keeps_mapError, keeps_saveObj, mapError_ok,
    mapError_error]
  constructor
  · rintro ⟨⟨hmay, hok, hfail⟩, hkvs⟩
    exact ⟨hmay, hok, fun hfaulty text => ⟨hkvs hfaulty text, hfail hfaulty text⟩⟩
  · rintro ⟨hmay, hok, hfail⟩
    exact ⟨⟨hmay, hok, fun hfaulty text => (hfail hfaulty text).2⟩,
      fun hfaulty text => (hfail hfaulty text).1⟩

variable {E : L → Prop}

/-! ### Traversal -/

/-- The state of a token that has been made ready for its branches: it leaves its activity, and
carries the branches that a split expects. -/
inductive Opened (state : WorkflowState) (targets : GoMap String) (iid : String) :
    String → WorkflowState → Prop
  | plain : Opened state targets iid "" state.leaving
  | split {reciprocalId : String} {paths : List String} (hid : reciprocalId ≠ "")
      (hperm : paths.Perm targets.keys) :
      Opened state targets iid reciprocalId (state.leaving.expecting iid paths)

/-- The state of the conduct once the gateway has been opened. -/
def opened (C : Conduct L) (l : L) (ns iid reciprocalId : String) : L :=
  if reciprocalId = "" then l else C.wrote l ⟨ns, .wfGateway, iid⟩

theorem opened_eq {iid reciprocalId : String} (h : C.wrote l ⟨ns, .wfGateway, iid⟩ = l) :
    C.opened l ns iid reciprocalId = l := by
  rw [opened, h, ite_self]

/-- The branches of a token, sent one after the other. -/
abbrev sendBranches (ns : String) (trackingID : TrackingID) (el : GoMap Element)
    (targets : GoMap String) (state : WorkflowState) (reciprocalId iid : String)
    (branches : List String) : Act Unit :=
  branches.forM fun branchID =>
    sendBranch ns trackingID el state reciprocalId iid branchID ((targets.lookup branchID).getD "")

/-- `traverse` up to the point where the branches are sent. -/
theorem leads_traverse {lib : Lib} {trackingID : TrackingID} {outbound : Option Targets}
    {el : GoMap Element} {R : L → WorkflowState → Prop}
    (hnone : outbound = none → R l state.leaving)
    (hopen : ∀ iid, C.mayWrite l ⟨ns, .wfGateway, iid⟩ (openedGateway state.vars))
    (hsend : ∀ {out targets elem reciprocalId iid st branches}, outbound = some out →
      chosenTargets lib state.vars out = some (.ok targets) →
      el.lookup state.elementId = some elem → splitReciprocal elem = some reciprocalId →
      ',' ∉ iid.toList → Opened state targets iid reciprocalId st → branches.Perm targets.keys →
      C.Leads (fun l _ => R l st) E (C.opened l ns iid reciprocalId)
        (sendBranches ns trackingID el targets st reciprocalId iid branches))
    (herror : E l) (hfail : C.faulty l → E (C.failed l)) :
    C.Leads R E l (traverse lib ns trackingID outbound el state) := by
  unfold traverse
  cases outbound with
  | none => exact keeps_pure.2 (hnone rfl)
  | some out =>
    refine leads_seq.2 (keeps_deref.2 fun chosen hchosen => leads_seq.2 (keeps_ofExcept.2 ?_))
    cases chosen with
    | error e => exact herror
    | ok targets =>
      refine leads_seq.2 (keeps_deref.2 fun elem helem => leads_seq.2 (keeps_deref.2
        fun reciprocalId hreciprocal => leads_seq.2 (keeps_newId.2 fun iid _ hcomma => ?_)))
      have hrest : ∀ st, Opened state targets iid reciprocalId st →
          C.Leads R E (C.opened l ns iid reciprocalId) (mapOrder targets.keys >>= fun branches =>
            sendBranches ns trackingID el targets st reciprocalId iid branches >>= fun _ =>
              pure st) := fun st hst =>
        leads_seq.2 (keeps_mapOrder.2 fun branches hperm => leads_seq.2
          ((hsend rfl hchosen helem hreciprocal hcomma hst hperm).mono fun l r hr => by
            cases r with
            | ok _ => exact keeps_pure.2 hr
            | error e => exact hr))
      refine leads_seq.2 (keeps_run_ite.2 ⟨fun hid => keeps_pure.2 ?_, fun hid => ?_⟩)
      · subst hid
        have hst := hrest _ .plain
        rwa [opened, if_pos rfl] at hst
      · refine leads_seq.2 (keeps_mapOrder.2 fun paths hpaths => ?_)
        have hst := hrest _ (.split hid hpaths)
        rw [opened, if_neg hid] at hst
        refine leads_seq.2 (keeps_wrap.2 (keeps_kvsFor.2 ⟨?_, fun hfaulty _ => hfail hfaulty⟩))
        exact leads_seq.2 (keeps_wrap.2 (keeps_saveObj.2 ⟨hopen iid, keeps_pure.2 hst,
          fun hfaulty _ => hfail hfaulty⟩))

end Conduct

end SharWorkflow
