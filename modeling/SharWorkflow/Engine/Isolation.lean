import SharWorkflow.Engine.Handlers

/-!
# Handlers side by side

The handlers of all namespaces run on one server and share one store. Whatever a message is about,
whichever calls fail, and in whatever order the calls of the handlers are made:

* `namespaces_isolated`: a handler makes calls in the namespace of its message only, so while the
  handlers of other namespaces are at work, nothing of a namespace changes.
* `instances_removed_by_completion`: of the handlings by which tokens move (`Work`), only the
  completion of an activity removes an execution or a process instance, or reports the end of an
  execution or of a called process.
-/

namespace SharWorkflow

open Concurrent Discipline Scope World

/-- The namespace in which a call is made. -/
def Op.ns? : Op → Option String
  | .kvsFor ns | .searchKeys ns _ _ | .keys ns _ => some ns
  | .get l | .put l _ | .create l _ | .update l _ _ | .delete l => some l.ns
  | .publish m => some m.ns
  | _ => none

/-- Two worlds agree on what is stored and published in a namespace. -/
structure World.SameIn (ns : String) (w w' : World) : Prop where
  value : ∀ l, l.ns = ns → w'.value l = w.value l
  log : (w'.log.filter fun m => m.ns = ns) = w.log.filter fun m => m.ns = ns

theorem World.SameIn.trans {ns : String} {w w' w'' : World} (h : w.SameIn ns w')
    (h' : w'.SameIn ns w'') : w.SameIn ns w'' :=
  ⟨fun l hl => (h'.value l hl).trans (h.value l hl), h'.log.trans h.log⟩

variable {S : Scope} {F : Op → Prop} {o : Op} {r : Ans o} {w w' : World}

theorem Scope.covers.ns (h : S.covers o) : ∀ ns ∈ o.ns?, ns = S.ns := by
  cases o <;> rintro ns ⟨⟩
  case kvsFor | searchKeys | keys | get => exact h
  case put | create | update | delete => exact h.1
  case publish => exact MayPublish.ns h

/-- A call in the scope leaves the other namespaces as they are. -/
theorem Scope.covers.sameIn {other : String} (h : S.covers o) (henv : env F o w r w')
    (hother : S.ns ≠ other) : w.SameIn other w' := by
  have hstored : ∀ (l : Loc) (v : l.Val), l.ns = S.ns → w.SameIn other (w.put l v) := fun l v hl =>
    ⟨fun l' hl' => put_value_of_ne w v fun heq => hother (hl ▸ heq ▸ hl'), rfl⟩
  cases effect_of_env henv with
  | put l v | create l v | update l v => exact hstored l v h.1
  | delete l =>
    exact ⟨fun l' hl' => clear_value_of_ne w fun heq => hother (h.1 ▸ heq ▸ hl'), rfl⟩
  | publish m =>
    have hns : m.ns ≠ other := (MayPublish.ns h).trans_ne hother
    exact ⟨fun _ _ => rfl, List.filter_cons_of_neg (by simpa using hns)⟩
  | _ => exact ⟨fun _ _ => rfl, rfl⟩

/-! ### The handlers -/

/-- The report that an execution or a called process has ended. -/
def Subject.EndsInstance (subject : Subject) : Prop :=
  subject = .executionComplete ∨ subject = .jobLaunchComplete

/-- The scope of a handler. Only the completion of an activity may end an instance. -/
def workScope (ns : String) (work : Work) : Scope where
  ns := ns
  writes _ := True
  deletes _ := work = .activityComplete
  publishes subject := subject.EndsInstance → work = .activityComplete
  vacant _ := False

theorem within_work (lib : Lib) (ns : String) (work : Work) (state : WorkflowState) :
    (workScope ns work).Within (fun _ => True) (serve ns (work.handler lib ns state)) := by
  have htame : lib.Tame (workScope ns work) := lib.tame_of_fatal (by rintro (h | h) <;> cases h)
  exact within_serve (local_work htame (fun _ => trivial) fun hwork =>
    ⟨⟨fun _ _ => trivial, fun _ => hwork, fun _ => hwork⟩, fun _ => hwork⟩)

variable {ι : Type} [DecidableEq ι] {lib : Lib} {ns : ι → String} {work : ι → Work}
  {state : ι → WorkflowState} {c : Config ι Op Ans World Settlement}

/-- Handlers side by side, each for a message of a namespace. -/
def handlers (lib : Lib) (ns : ι → String) (work : ι → Work) (state : ι → WorkflowState) (i : ι) :
    P Settlement :=
  serve (ns i) ((work i).handler lib (ns i) (state i))

theorem covers_of_run (hrun : Run (env F) (.start w (handlers lib ns work state)) c) :
    ∀ e ∈ c.trace, (workScope (ns e.thread) (work e.thread)).covers e.op := fun e he =>
  run_covered (fun _ => id) (within_work lib (ns e.thread) (work e.thread) (state e.thread)) hrun e
    he rfl

/-- **Namespaces are isolated.** Every call of a handler is made in the namespace of its message.
While the calls are those of handlers of other namespaces, nothing that is stored or published in a
namespace changes. -/
theorem namespaces_isolated (hrun : Run (env F) (.start w (handlers lib ns work state)) c) :
    (∀ e ∈ c.trace, ∀ n ∈ e.op.ns?, n = ns e.thread) ∧ ∀ other later e earlier,
      c.trace = later ++ e :: earlier → (∀ e' ∈ e :: later, ns e'.thread ≠ other) →
        e.before.SameIn other c.state := by
  have hcovers := covers_of_run hrun
  refine ⟨fun e he => (hcovers e he).ns, fun other later e earlier htrace hother => ?_⟩
  rw [htrace] at hcovers
  refine (hrun.holds_since (S := e.before.SameIn other) htrace ?_ ?_).1
  · intro s' henv
    exact (hcovers e (by simp)).sameIn henv (hother e List.mem_cons_self)
  · intro e' he' s' hsame henv
    exact hsame.trans
      ((hcovers e' (by simp [he'])).sameIn henv (hother e' (List.mem_cons_of_mem _ he')))

/-- A workflow with a process that starts and ends. -/
def shortWorkflow : Workflow where
  process := AList.singleton "process" { id := "process", elements := [
    { id := "start", type := .startEvent
      outbound := some { target := [{ id := "flow", target := "end" }] } },
    { id := "end", type := .endEvent }] }

/-- A token at the start of the process. -/
def startToken : WorkflowState where
  workflowId := "workflow"
  executionId := "execution"
  processId := "process"
  processInstanceId := "instance"
  elementId := "start"
  elementType := .startEvent
  id := ["instance", "token"]

/-- In two namespaces an instance of the process is running, and its token is handled. -/
def startTokens : Config Bool Op Ans World Settlement :=
  .start ((({} : World).running "a" shortWorkflow).running "b" shortWorkflow) (handlers (constLib ∅)
    (fun second => if second then "b" else "a") (fun _ => .traversal) fun _ => startToken)

/-- What came of both tokens: something was published, and the instance is there still. -/
def World.BothStarted (w : World) : Prop :=
  ∀ ns ∈ ["a", "b"], (∃ m ∈ w.log, m.ns = ns) ∧ w.value ⟨ns, .wfProcessInstance, "instance"⟩ ≠ none

/-- The token of the second namespace is handled after that of the first one. -/
theorem exists_run_startTokens : ∃ c later e earlier, Run (env noFault) startTokens c ∧
    c.trace = later ++ e :: earlier ∧ (∀ e' ∈ e :: later, e'.thread = true) ∧
    c.state.BothStarted := by
  obtain ⟨c, hrun, hlength, hsecond, hstarted⟩ := exists_run_of_reaches noFault startTokens
    (List.replicate 21 (false, .ok) ++ List.replicate 21 (true, .ok))
    (fun c => c.trace.length = 42 ∧ (∀ e ∈ c.trace.take 21, e.thread = true) ∧
      ∀ ns ∈ ["a", "b"], (∃ m ∈ c.state.log, m.ns = ns) ∧
        c.state.value ⟨ns, .wfProcessInstance, "instance"⟩ ≠ none) (by decide +kernel)
  have hlt : 20 < c.trace.length := by omega
  refine ⟨c, c.trace.take 20, c.trace[20], c.trace.drop 21, hrun, ?_, fun e' he' => ?_, hstarted⟩
  · rw [List.getElem_cons_drop, List.take_append_drop]
  · refine hsecond e' ?_
    rw [← List.take_concat_get' _ _ hlt, List.mem_append, List.mem_singleton]
    exact (List.mem_cons.1 he').symm

theorem namespaces_isolated_startTokens : ∃ c later e earlier, Run (env noFault) startTokens c ∧
      c.trace = later ++ e :: earlier ∧ c.state.BothStarted ∧ e.before.SameIn "a" c.state := by
  obtain ⟨c, later, e, earlier, hrun, htrace, hsecond, hstarted⟩ := exists_run_startTokens
  refine ⟨c, later, e, earlier, hrun, htrace, hstarted,
    (namespaces_isolated hrun).2 "a" later e earlier htrace fun e' he' => ?_⟩
  rw [hsecond e' he']
  decide

/-- **Of the handlings by which tokens move, only the completion of an activity ends anything.**
While no call is one of its handler, the executions and process instances that are stored stay, and
none is reported to have ended. -/
theorem instances_removed_by_completion
    (hrun : Run (env F) (.start w (handlers lib ns work state)) c)
    {later earlier : List (WEvent ι)} {e : WEvent ι} (htrace : c.trace = later ++ e :: earlier)
    (hwork : ∀ e' ∈ e :: later, work e'.thread ≠ .activityComplete) :
    (∀ l, l.bucket.HoldsInstances → e.before.value l ≠ none → c.state.value l ≠ none) ∧
      ∀ e' ∈ e :: later, ∀ m, e'.op = .publish m → ¬ m.subject.EndsInstance := by
  have hcovers : ∀ e' ∈ e :: later, (workScope (ns e'.thread) (work e'.thread)).covers e'.op :=
    fun e' he' => covers_of_run hrun e' (by rw [htrace]; simp at he' ⊢; tauto)
  have hkeep : ∀ e' ∈ e :: later, ∀ l, l.bucket.HoldsInstances → ∀ s', e'.before.value l ≠ none →
      env F e'.op e'.before e'.answer s' → s'.value l ≠ none := by
    intro e' he' l hl s' hvalue henv
    refine value_ne_none_of_env henv (Bool.eq_false_of_not_eq_true fun hdelete => ?_) hvalue
    exact hwork e' he' ((hcovers e' he').deletes hdelete hl)
  refine ⟨fun l hl hvalue => ?_, fun e' he' m hm hends => ?_⟩
  · exact (hrun.holds_since (S := fun s => s.value l ≠ none) htrace
      (fun s' => hkeep e List.mem_cons_self l hl s' hvalue)
      fun e' he' => hkeep e' (List.mem_cons_of_mem _ he') l hl).1
  · have hpublish := hcovers e' he'
    rw [hm] at hpublish
    refine hwork e' he' (hpublish.special ?_ hends)
    rcases hends with hsubject | hsubject <;> rw [hsubject] <;> rfl

theorem instances_removed_by_completion_startTokens : ∃ c later e earlier,
    Run (env noFault) startTokens c ∧ c.trace = later ++ e :: earlier ∧ c.state.BothStarted ∧
      (∀ l, l.bucket.HoldsInstances → e.before.value l ≠ none → c.state.value l ≠ none) ∧
      ∀ e' ∈ e :: later, ∀ m, e'.op = .publish m → ¬ m.subject.EndsInstance := by
  obtain ⟨c, later, e, earlier, hrun, htrace, -, hstarted⟩ := exists_run_startTokens
  exact ⟨c, later, e, earlier, hrun, htrace, hstarted,
    instances_removed_by_completion hrun htrace fun _ _ => nofun⟩

end SharWorkflow
