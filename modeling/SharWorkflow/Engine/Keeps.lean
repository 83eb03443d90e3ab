import SharWorkflow.Engine.Compensation
import SharWorkflow.Engine.Launch
import SharWorkflow.Nats.Keeps

/-!
# Operations under a discipline

The operations of the engine under a discipline without a state, in the terms of `Nats/Keeps.lean`:
what the discipline has to allow, and what is known of the result.
-/

namespace SharWorkflow

open Concurrent Discipline

variable {D : Discipline Op Ans Unit} {E : Err → Prop} [PassesOn D E] {ns : String}
  {state : WorkflowState}

theorem yields_publishMsg {m : Msg} (h : D.may () (.publish m)) :
    Yields D (fun _ => True) (publishMsg m) E := by
  refine ensures_perform (o := Op.publish m) h ?_
  rintro (e | _) hr
  · exact PassesOn.answer hr rfl
  · exact trivial

/-- A state is published, and a user task is opened for its owners. -/
theorem yields_publishWorkflowState {subject : Subject} {embargo : Int} (hnow : D.may () .now)
    (hpublish : ∀ time, D.may () (.publish ⟨ns, subject, .state (state.stamped time), embargo⟩))
    (htask : subject = .jobUserTaskExecute →
      ∀ owner id, Yields D (fun _ => True) (openUserTask ns owner id) E) :
    Yields D (fun _ => True) (publishWorkflowState ns subject state embargo) E := by
  refine (yields_now hnow).andThen fun time => ?_
  refine (yields_publishMsg (hpublish time)).wrap.andThen fun _ => ?_
  split
  · exact (Yields.forM fun owner _ => (htask ‹_› owner _).wrap).andThen fun _ => yields_pure trivial
  · exact yields_pure trivial

theorem yields_createConsumer {durable : String} {filter : Subject}
    (h : D.may () (.createConsumer durable filter)) :
    Yields D (fun _ => True) (createConsumer durable filter) E := by
  refine ensures_perform (o := Op.createConsumer durable filter) h ?_
  rintro (e | _) hr
  · exact PassesOn.answer hr rfl
  · exact trivial

theorem yields_ensureBucket {name : String} (h : D.may () (.ensureBucket name)) :
    Yields D (fun _ => True) (ensureBucket name) E := by
  refine ensures_perform (o := Op.ensureBucket name) h ?_
  rintro (e | _) hr
  · exact PassesOn.answer hr rfl
  · exact trivial

/-- The error for an object that is not found, and the one for any other failure. -/
theorem Yields.notFound {α : Type} {Q : α → Prop} {x : Act α} {missing failed : String}
    {s : Sentinel} (h : Yields D Q x E) :
    Yields D Q (Act.mapError (fun e => if e.is .keyNotFound then .wrap missing (.sentinel s)
      else .wrap failed e) x) E := by
  refine h.mapError fun e he => ?_
  split
  · exact PassesOn.wrap (D := D) missing (PassesOn.sentinel D s)
  · exact PassesOn.wrap (D := D) failed he

section

variable (hns : D.may () (.kvsFor ns))
include hns

theorem yields_recordHistory {historyType : ProcessHistoryType}
    (hput : ∀ key v, D.may () (.put ⟨ns, .wfHistory, key⟩ v)) :
    Yields D (fun _ => True) (recordHistory ns state historyType) E :=
  (yields_nsKVs hns).andThen fun _ =>
    (yields_saveObj (hput _ _)).any.mapError fun _ _ => PassesOn.fatal D _

theorem yields_getProcessHistoryItem {processInstanceID trackingID : String}
    {historyType : ProcessHistoryType} (hget : ∀ key, D.may () (.get ⟨ns, .wfHistory, key⟩)) :
    Yields D (fun _ => True)
      (getProcessHistoryItem ns processInstanceID trackingID historyType) E :=
  (yields_kvsFor hns).wrap.andThen fun _ =>
    (yields_kvGet (hget _)).wrap.andThen fun _ => yields_pure trivial

theorem yields_loadFor {b : Bucket} {key missing failed : String} {absent : Sentinel}
    (hget : D.may () (.get ⟨ns, b, key⟩)) :
    Yields D (Finds D ⟨ns, b, key⟩) (loadFor ⟨ns, b, key⟩ missing absent failed) E :=
  (yields_nsKVs hns).andThen fun _ => (yields_loadObj hget).notFound

theorem yields_loadFrom {b : Bucket} {key text : String} (hget : D.may () (.get ⟨ns, b, key⟩)) :
    Yields D (Finds D ⟨ns, b, key⟩) (loadFrom ⟨ns, b, key⟩ text) E :=
  (yields_nsKVs hns).andThen fun _ => (yields_loadObj hget).wrap

/-- A workflow definition comes from the cache or from the store. -/
def Defines (D : Discipline Op Ans Unit) (ns id : String) (wf : Workflow) : Prop :=
  D.step () (.cacheGet id) (some wf) () ∨ Finds D ⟨ns, .wf, id⟩ wf

theorem yields_getWorkflow {id : String} (hcache : D.may () (.cacheGet id))
    (hget : D.may () (.get ⟨ns, .wf, id⟩))
    (hset : ∀ wf, Finds D ⟨ns, .wf, id⟩ wf → D.may () (.cacheSet id wf)) :
    Yields D (Defines D ns id) (getWorkflow ns id) E := by
  refine Yields.wrap (Yields.seq (Q := (D.step () (.cacheGet id) · ())) ?_ fun found hfound => ?_)
  · exact yields_answer (o := .cacheGet id) (f := fun r => r) hcache fun _ hr => hr
  cases found with
  | some wf => exact yields_pure (.inl hfound)
  | none =>
    refine (yields_loadFor hns hget).wrap.seq fun wf hwf => ?_
    refine Yields.seq (Q := fun _ => True) ?_ fun _ _ => yields_pure (.inr hwf)
    exact yields_answer (o := .cacheSet id wf) (f := fun _ => ()) (hset wf hwf) fun _ _ => trivial

end

end SharWorkflow
