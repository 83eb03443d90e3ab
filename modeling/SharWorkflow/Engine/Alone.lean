import SharWorkflow.Nats.Alone
import SharWorkflow.Engine.Activity

/-!
# Operations of a handler alone

What the operations that the handlers are built from come to when nothing else is going on, in the
vocabulary of `Nats/Alone.lean`.

A definition that is read through the cache may be put there, or not, so the rule for `GetWorkflow`
(`Ends.getWorkflow`) leaves the cache open and asks for a namespace in which store and cache agree
(`World.Defines`).
-/

namespace SharWorkflow

open Concurrent World

-- sequences are split by `ends_seq`
attribute [-simp] ExceptT.run_bind

variable {F : Op → Prop} {X : Prop} {w : World} {α : Type} {ns : String}

/-! ### Publishing -/

@[simp] theorem World.publish_log (w : World) (m : Msg) : (w.publish m).log = m :: w.log := rfl

@[simp]
theorem ends_publishMsg {m : Msg} {Q : World → Except Err Unit → Prop} :
    Ends (env F) X Q w (publishMsg m).run ↔
      Q (w.publish m) (.ok ()) ∧ (F (.publish m) → ∀ text, Q w (.error (.nats text))) :=
  (ends_perform (o := .publish m) nofun).trans forall_outcome

/-- A publication that opens no user task. -/
theorem ends_publishWorkflowState {subject : Subject} {state : WorkflowState} {embargo : Int}
    {Q : World → Except Err WorkflowState → Prop} (h : subject ≠ .jobUserTaskExecute) :
    Ends (env F) X Q w (publishWorkflowState ns subject state embargo).run ↔ ∀ t,
      Q (w.publish ⟨ns, subject, .state (state.stamped t), embargo⟩) (.ok (state.stamped t)) ∧
        (F (.publish ⟨ns, subject, .state (state.stamped t), embargo⟩) → ∀ text,
          Q w (.error (.wrap "publish workflow state message" (.nats text)))) := by
  simp [publishWorkflowState, h]

/-! ### Reads -/

/-- The object is loaded, or there is none, or a call has failed. -/
@[simp]
theorem ends_loadFor (l : Loc) {missing failed : String} {absent : Sentinel}
    {Q : World → Except Err l.Val → Prop} :
    Ends (env F) X Q w (loadFor l missing absent failed).run ↔
      (w.value l = none → Q w (.error (.wrap missing (.sentinel absent)))) ∧
        (∀ v, w.value l = some v → Q w (.ok v)) ∧
        (F (.get l) → ∀ text, Q w (.error (.wrap failed (Conduct.loadFailed l text)))) ∧
        (F (.kvsFor l.ns) → ∀ text,
          Q w (.error (.wrap ("get KVs for ns " ++ l.ns) (.nats text)))) := by
  simp only [loadFor, ends_seq, ends_nsKVs, ends_mapError, ends_loadObj, mapError_ok,
    mapError_error, and_assoc]
  exact Iff.rfl

variable {id : String}

@[simp]
theorem ends_getProcessHistoryItem {pi tid : String} {historyType : ProcessHistoryType}
    {Q : World → Except Err ProcessHistoryEntry → Prop} :
    Ends (env F) X Q w (getProcessHistoryItem ns pi tid historyType).run ↔
      (w.value (historyLoc ns pi tid historyType) = none →
        Q w (.error (.wrap "get history entry" (.sentinel .keyNotFound)))) ∧
        (∀ v, w.value (historyLoc ns pi tid historyType) = some v → Q w (.ok v)) ∧
        (F (.get (historyLoc ns pi tid historyType)) → ∀ text,
          Q w (.error (.wrap "get history entry" (.nats text)))) ∧ (F (.kvsFor ns) → ∀ text,
          Q w (.error (.wrap "get key value stores for namespace" (.nats text)))) := by
  simp only [getProcessHistoryItem, ends_seq, ends_wrap, ends_kvsFor, ends_kvGet, ends_pure,
    mapError_ok, mapError_error, and_assoc]
  exact and_congr_right' (and_congr_left' forall_isNil_iff)

/-- The object is loaded, or there is none. -/
@[simp]
theorem ends_loadFrom (l : Loc) {text : String} {Q : World → Except Err l.Val → Prop} :
    Ends (env noFault) X Q w (loadFrom l text).run ↔
      (w.value l = none → Q w (.error (.wrap text (loadNotFound l)))) ∧
        ∀ v, w.value l = some v → Q w (.ok v) := by
  simp only [loadFrom, ends_seq, ends_nsKVs, ends_wrap, ends_loadObj, mapError_ok, mapError_error,
    noFault_iff, false_imp_iff, and_true]

@[simp]
theorem ends_hasValidExecution {Q : World → Except Err Execution → Prop} :
    Ends (env noFault) X Q w (hasValidExecution ns id).run ↔
      (w.value ⟨ns, .wfExecution, id⟩ = none → Q w (.error (.wrap "orphaned activity"
        (.wrap "get execution failed to load object" (.sentinel .executionNotFound))))) ∧
        ∀ v, w.value ⟨ns, .wfExecution, id⟩ = some v → Q w (.ok v) := by
  simp [hasValidExecution, getExecution, ends_loadFor ⟨_, .wfExecution, _⟩]

/-! ### Definitions -/

/-- The world with another cache. -/
def World.withCache (w : World) (c : String → Option Workflow) : World := { w with cache := c }

@[simp] theorem World.withCache_value (w : World) (c : String → Option Workflow) (l : Loc) :
    (w.withCache c).value l = w.value l := rfl

/-- The namespace holds the definition `wf` under the id, and so does the cache if it holds any. -/
structure World.Defines (w : World) (ns id : String) (wf : Workflow) : Prop where
  stored : w.value ⟨ns, .wf, id⟩ = some wf
  cached : w.cache id = none ∨ w.cache id = some wf

/-- `GetWorkflow` takes the definition from the cache, or loads it and may put it there. -/
theorem ends_getWorkflow {Q : World → Except Err Workflow → Prop} :
    Ends (env F) X Q w (getWorkflow ns id).run ↔ (∀ wf, w.cache id = some wf → Q w (.ok wf)) ∧
      Ends (env F) X (fun w r => Q w (r.mapError fun e => .wrap "error caching GetWorkflow"
          (.wrap ("error retrieving cacheable value for key " ++ id) e)) ∧
        ∀ wf, r = .ok wf → Q (w.withCache (Function.update w.cache id (some wf))) (.ok wf)) w
        (loadWorkflow ns id).run := by
  let wrapped : World → Except Err Workflow → Prop := fun w r =>
    Q w (r.mapError (.wrap "error caching GetWorkflow"))
  have hset (w : World) (wf : Workflow) :
      Ends (env F) X wrapped w (cacheSet id wf >>= fun _ => pure wf).run ↔
        Q w (.ok wf) ∧ Q (w.withCache (Function.update w.cache id (some wf))) (.ok wf) := by
    refine ends_seq.trans (ends_bind.trans ((ends_perform (o := .cacheSet id wf) (by simp)).trans
      ?_))
    simp only [ends_ret, ends_pure, wrapped, mapError_ok]
    constructor
    · exact fun h => ⟨h () w (.inl rfl), h () _ (.inr rfl)⟩
    · rintro h - w' (rfl | rfl)
      · exact h.1
      · exact h.2
  rw [getWorkflow, ends_wrap, ends_seq]
  refine ends_bind.trans ((ends_perform (o := .cacheGet id) (by simp)).trans ?_)
  simp only [ends_ret]
  constructor
  · refine fun h => ⟨fun wf hwf => ?_, ?_⟩
    · exact (ends_pure (Q := wrapped)).1 (h (some wf) w ⟨rfl, .inr hwf.symm⟩)
    · refine (ends_wrap.1 (ends_seq.1 (h none w ⟨rfl, .inl rfl⟩))).mono ?_
      rintro w' (e | wf) hr
      · exact ⟨hr, by simp⟩
      · obtain ⟨hsame, hput⟩ := (hset w' wf).1 hr
        exact ⟨hsame, fun wf' h => Except.ok.inj h ▸ hput⟩
  · rintro ⟨hcached, hload⟩ r w' ⟨rfl, hr⟩
    cases r with
    | none =>
      refine ends_seq.2 (ends_wrap.2 (hload.mono ?_))
      rintro w' (e | wf) ⟨hsame, hput⟩
      · exact hsame
      · exact (hset w' wf).2 ⟨hsame, hput wf rfl⟩
    | some wf =>
      refine (ends_pure (Q := wrapped)).2 (hcached wf ?_)
      rcases hr with hr | hr
      · cases hr
      · exact hr.symm

/-- `GetWorkflow` finds the definition, and may or may not put it into the cache. -/
theorem Ends.getWorkflow {wf : Workflow} {Q : World → Except Err Workflow → Prop}
    (h : w.Defines ns id wf)
    (hQ : ∀ c, (w.withCache c).Defines ns id wf → Q (w.withCache c) (.ok wf)) :
    Ends (env noFault) X Q w (SharWorkflow.getWorkflow ns id).run := by
  have hsame : Q w (.ok wf) := hQ w.cache h
  have hput : Q (w.withCache (Function.update w.cache id (some wf))) (.ok wf) :=
    hQ _ ⟨h.stored, .inr (Function.update_self ..)⟩
  refine ends_getWorkflow.2 ⟨fun wf' hwf' => ?_, (ends_loadFor ⟨ns, .wf, id⟩).2 ?_⟩
  · rcases h.cached with hc | hc
    · cases hc.symm.trans hwf'
    · exact Option.mem_unique hc hwf' ▸ hsame
  · simp [h.stored, hsame, hput]

end SharWorkflow
