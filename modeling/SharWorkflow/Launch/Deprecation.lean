import Mathlib.Data.List.TakeWhile
import SharWorkflow.Engine.Queries
import SharWorkflow.Engine.TimedStart
import SharWorkflow.Launch.Conduct
import SharWorkflow.Launch.Keeps

/-!
# Deprecated tasks

A task that is deprecated should not be started any more. `LaunchWithParent` looks at the tasks of
the process that it is asked to launch, before anything is created. But it launches the other
participants of the collaboration as well, and does not look at their tasks, nor at those of
embedded sub-processes; and a timed start looks at no task at all.

* `Workflow.Guards`: the launched process itself has the task among its elements if any of the
  processes that are launched with it has.
* `Starter`: what creates process instances: a launch, or a message of a timed start.
* `deprecated_task_not_started`: **in every run**, once the deprecation has gone through, a starter
  that begins later creates no instance of a process with the task, as long as the task is not
  registered again and the definitions guard it.
* `deprecated_task_started`: the two ways around the check.
-/

namespace SharWorkflow

open Concurrent Discipline Conduct List World

/-! ### Processes with a task -/

/-- If one of the processes that are launched with `processId` has the task, then `processId` has it
among its own elements. -/
def Workflow.Guards (wf : Workflow) (uid processId : String) : Prop :=
  ∀ participants prs pr, wf.collaboration = some participants →
    launchProcesses wf processId participants = .ok prs → pr ∈ prs → wf.usesTask uid pr.id →
      ∃ own, wf.process.lookup processId = some own ∧ ∃ el ∈ own.elements, el.usesTask uid

/-- The specification is deprecated. -/
def TaskSpec.isDeprecated (spec : TaskSpec) : Bool := (spec.behaviour.map (·.deprecated)).getD false

/-- Where the specification of a task is stored. -/
abbrev taskSpecLoc (ns uid : String) : Loc := ⟨ns, .wfTaskSpec, uid⟩

/-- The definitions that are stored or cached are the given ones. -/
structure World.DefinedBy (w : World) (defs : String → Option Workflow) : Prop where
  stored : ∀ {ns id : String} {wf : Workflow}, w.value ⟨ns, .wf, id⟩ = some wf → defs id = some wf
  cached : ∀ {id : String} {wf : Workflow}, w.cache id = some wf → defs id = some wf

/-- The definition that a call stores or caches, with its id. -/
def definitionStored : Op → Option (String × Workflow)
  | .put ⟨_, .wf, id⟩ wf => some (id, wf)
  | .create ⟨_, .wf, id⟩ wf => some (id, wf)
  | .update ⟨_, .wf, id⟩ wf _ => some (id, wf)
  | .cacheSet id wf => some (id, wf)
  | _ => none

variable {F : Op → Prop} {o : Op} {r : Ans o}

theorem World.DefinedBy.step {defs : String → Option Workflow}
    {w w' : World} (hw : w.DefinedBy defs) (h : env F o w r w')
    (hdefs : ∀ id wf, definitionStored o = some (id, wf) → defs id = some wf) :
    w'.DefinedBy defs where
  stored {ns id wf} hv := by
    rcases value_of_env h ⟨ns, .wf, id⟩ with hsame | hnone | ⟨v, hwrite, hvalue⟩
    · exact hw.stored (hsame ▸ hv)
    · rw [hnone] at hv
      cases hv
    · obtain rfl : v = wf := Option.mem_unique hvalue hv
      cases hwrite with
      | put | create | update => exact hdefs id v rfl
  cached {id wf} hv := by
    by_cases hcache : ∃ id' wf', o = .cacheSet id' wf'
    · obtain ⟨id', wf', rfl⟩ := hcache
      rcases h with rfl | rfl
      · exact hw.cached hv
      · have hv : Function.update w.cache id' (some wf') id = some wf := hv
        by_cases hid : id = id'
        · subst hid
          rw [Function.update_self] at hv
          exact (hdefs id wf' rfl).trans hv
        · rw [Function.update_of_ne hid] at hv
          exact hw.cached hv
    · rw [cache_of_env h fun id' wf' ho => hcache ⟨id', wf', ho⟩] at hv
      exact hw.cached hv

/-- The process instance that a call creates. -/
def instanceCreated : Op → Option ProcessInstance
  | .put ⟨_, .wfProcessInstance, _⟩ pi => some pi
  | _ => none

/-- The call creates an instance of a process that has the task. -/
def CreatesInstance (defs : String → Option Workflow) (uid : String) (o : Op) : Prop :=
  ∃ pi wf, instanceCreated o = some pi ∧ defs pi.workflowId = some wf ∧ wf.usesTask uid pi.processId

/-! ### Starters -/

/-- What creates process instances: `LaunchWithParent`, which is also what `Launch` calls, and the
handler of the messages of a timed start. -/
inductive Starter
  | launch (lib : Lib) (processId : String) (ID : TrackingID) (vars headers : Bytes)
      (parentpiID parentElID : String)
  | timed (lib : Lib) (now : Int64) (state : WorkflowState)

/-- The call of the starter. -/
def Starter.program (ns : String) : Starter → P Unit
  | .launch lib processId ID vars headers parentpiID parentElID =>
    (launchWithParent lib ns processId ID vars headers parentpiID parentElID).run.bind fun _ =>
      .ret ()
  | .timed lib now state => (timedExecuteProcessor lib ns now state).bind fun _ => .ret ()

/-- The definitions guard the task: a launch looks at it, and a timed start does not have it. -/
def Starter.Guarded (defs : String → Option Workflow) (uid : String) : Starter → Prop
  | .launch _ processId _ _ _ _ _ => ∀ id wf, defs id = some wf → wf.Guards uid processId
  | .timed _ _ state => ∀ wf, defs state.workflowId = some wf → ¬ wf.usesTask uid state.processId

/-! ### The conduct of a starter -/

/-- A starter that finds the task deprecated: no instance of a process with the task is created. -/
def starterConduct (defs : String → Option Workflow) (ns uid : String) : Conduct Unit where
  mayWrite _
    | ⟨_, .wfProcessInstance, _⟩, pi =>
      ∀ wf, defs pi.workflowId = some wf → ¬ wf.usesTask uid pi.processId
    | _, _ => True
  holds _
    | ⟨_, .wf, id⟩, wf => defs id = some wf
    | ⟨ns', .wfTaskSpec, id⟩, spec => ns' = ns → id = uid → spec.isDeprecated = true
    | _, _ => True
  defines id wf := defs id = some wf
  holds_defines h := h

variable {processId : String} {x : Act α} {starter : Starter}

section

variable {defs : String → Option Workflow} {lib : Lib} {ns uid : String} {wf : Workflow}

theorem unmoved_starterConduct : (starterConduct defs ns uid).Unmoved :=
  ⟨fun _ _ => rfl, fun _ _ => rfl, fun _ => rfl⟩

/-- The program creates no instance of a process with the task, and its result meets `Q`. -/
abbrev Spares (defs : String → Option Workflow) (ns uid : String) {ε α : Type} (Q : α → Prop)
    (x : ExceptT ε P α) : Prop :=
  Yields (starterConduct defs ns uid).discipline Q x

/-- The check of a task is passed only by other tasks. -/
theorem spares_checkTaskDeprecation {el : Element} :
    Spares defs ns uid (fun _ => ¬ el.usesTask uid) (checkTaskDeprecation ns processId el) := by
  refine Yields.when (fun _ => ?_) fun htype huses => htype huses.1
  refine (yields_deref trivial _).seq fun version hversion => ?_
  refine (yields_loadFrom (b := .wfTaskSpec) trivial trivial).wrap.seq fun spec hspec => ?_
  refine Yields.ite (fun _ => yields_throw _) fun hkept => yields_pure fun huses => hkept ?_
  exact holds_of_finds hspec rfl (Option.mem_unique hversion huses.2)

/-- **The check**: it is passed only by processes that do not have the task among their elements. -/
theorem spares_checkProcessTaskDeprecation : Spares defs ns uid
      (fun _ => ∀ own, wf.process.lookup processId = some own → ∀ el ∈ own.elements,
        ¬ el.usesTask uid) (checkProcessTaskDeprecation ns wf processId) := by
  refine (yields_deref trivial _).seq fun pr hpr => ?_
  refine (Yields.forM_all fun el _ => spares_checkTaskDeprecation).mono fun _ hall own hown => ?_
  rw [Option.mem_unique hown hpr]
  exact hall

section

variable {state : WorkflowState} {vrs headers : Bytes} {parentpiID : String}

theorem spares_publish (subject : Subject) (h : subject ≠ .jobUserTaskExecute) :
    Spares defs ns uid (fun _ => True) (publishWorkflowState ns subject state) :=
  yields_publishWorkflowState trivial (fun _ => trivial) fun hs => absurd hs h

theorem spares_getWorkflow {id : String} :
    Spares defs ns uid (fun wf => defs id = some wf) (getWorkflow ns id) := by
  refine Yields.mono (yields_getWorkflow trivial trivial trivial fun _ => holds_of_finds) ?_
  rintro wf (hcached | hstored)
  · exact hcached.1 wf rfl
  · exact holds_of_finds hstored

theorem allowsLaunch_starterConduct : AllowsLaunch (starterConduct defs ns uid).discipline ns where
  kvsFor := trivial
  get _ _ := trivial
  newId := trivial
  cacheGet _ := trivial
  cacheSet _ _ := holds_of_finds
  ensureBucket _ := trivial
  execution _ _ := trivial
  update _ _ _ := trivial
  now := trivial
  history _ _ := trivial
  publish _ _ := trivial

/-- **A launch**, if the definition guards the task. -/
theorem spares_launchWithParent {ID : TrackingID} {parentElID : String}
    (h : ∀ id wf, defs id = some wf → wf.Guards uid processId) :
    Spares defs ns uid (fun _ => True)
      (launchWithParent lib ns processId ID vrs headers parentpiID parentElID) := by
  have hlaunch : AllowsLaunch (starterConduct defs ns uid).discipline ns :=
    allowsLaunch_starterConduct
  have hname : Spares defs ns uid (fun _ => True) (getWorkflowNameFor ns processId) :=
    (yields_nsKVs trivial).andThen fun _ =>
      Yields.mapError (Yields.any (yields_load (l := ⟨ns, .wfProcess, processId⟩) trivial))
  refine hname.wrap.andThen fun workflowName => ?_
  refine (yields_loadFor (b := .wfVersion) trivial trivial).attempt.andThen fun found => ?_
  refine (yields_deref trivial _).andThen fun wfv => (yields_checkEnabled hlaunch).andThen
    fun _ => ?_
  refine (yields_deref trivial _).andThen fun version => ?_
  refine spares_getWorkflow.wrap.seq fun wf hwf => ?_
  refine spares_checkProcessTaskDeprecation.wrap.seq fun _ hchecked => ?_
  refine (yields_launchContext hlaunch).andThen fun context => ?_
  refine (yields_deref trivial _).seq fun participants hparticipants => ?_
  refine (yields_ofExcept _).seq fun prs hprs => ?_
  refine Yields.andThen (Yields.forM fun pr hpr => yields_launchProcess hlaunch fun _ _ => ?_)
    fun _ => yields_pure trivial
  rintro wf' hwf' huses
  obtain rfl : wf' = wf := Option.mem_unique hwf' hwf
  obtain ⟨own, hown, el, hel, htask⟩ := h _ _ hwf participants prs pr hparticipants hprs hpr huses
  exact hchecked own hown el hel htask

/-- **A timed start**, if the process does not have the task. -/
theorem spares_timedExecute {now : Int64}
    (h : ∀ wf, defs state.workflowId = some wf → ¬ wf.usesTask uid state.processId) :
    Spares defs ns uid (fun _ => True) (timedExecute lib ns now state) := by
  have htraverse (trackingID : TrackingID) (outbound : Option Targets) (els : GoMap Element)
      (state : WorkflowState) :
      Spares defs ns uid (fun _ => True) (traverse lib ns trackingID outbound els state) :=
    (unmoved_starterConduct.leads_traverse_of_inv (E := fun _ => True) (I := fun _ => True) trivial
      (fun _ _ => trivial) (fun _ _ _ _ => ⟨trivial, trivial⟩) fun _ _ => trivial).yields
  have hrecords : AllowsRecords (starterConduct defs ns uid).discipline ns :=
    allowsLaunch_starterConduct.toAllowsRecords
  have hfire (wf : Workflow) (el : Element) (newTimer : WorkflowState) (fireNext : Int64) :
      Spares defs ns uid (fun _ => True)
        (fireTimedStart lib ns wf el state newTimer fireNext) := by
    refine Yields.andThen (Yields.ending (yields_createExecution hrecords)) fun exec => ?_
    refine Yields.andThen (Yields.ending (yields_createProcessInstance hrecords fun _ _ => h))
      fun pi => ?_
    refine (spares_publish .processExecute nofun).ending.andThen fun _ => ?_
    refine Yields.andThen (Yields.ending (Yields.wrap (yields_recordHistory trivial
      fun _ _ => trivial))) fun _ => ?_
    refine Yields.andThen (Q := fun _ => True) (Yields.ending ?_) fun vars => ?_
    · exact (yields_deref trivial _).andThen fun _ => (yields_ofExcept _).any
    refine (yields_newId trivial).ending.andThen fun id => ?_
    refine (htraverse _ _ _ _).ending.andThen fun _ => ?_
    exact (spares_publish .timedExecute nofun).ending.andThen fun _ => yields_pure trivial
  refine spares_getWorkflow.ending.andThen fun wf => ?_
  refine (yields_deref trivial _).ending.andThen fun timer => ?_
  refine (yields_deref trivial _).ending.andThen fun el => ?_
  refine (yields_deref trivial _).ending.andThen fun definition => ?_
  refine Yields.ite (fun _ => yields_pure trivial) fun _ =>
    Yields.ite (fun _ => ?_) fun _ => yields_pure trivial
  exact (hfire _ _ _ _).andThen fun _ => yields_pure trivial

end

theorem ensures_program (h : starter.Guarded defs uid) :
    (starterConduct defs ns uid).discipline.Ensures (fun _ => True) (starter.program ns) := by
  cases starter with
  | launch lib processId ID vars headers parentpiID parentElID =>
    exact Ensures.bind (spares_launchWithParent h) fun _ _ => ensures_ret trivial
  | timed lib now state =>
    refine Ensures.bind (Q := fun _ => True) ?_ fun _ _ => ensures_ret trivial
    refine Ensures.bind (spares_timedExecute h) fun r _ => ?_
    cases r <;> exact ensures_ret trivial

theorem not_createsInstance_of_may (h : (starterConduct defs ns uid).may () o) :
    ¬ CreatesInstance defs uid o := by
  rintro ⟨pi, wf, hpi, hwf, huses⟩
  unfold instanceCreated at hpi
  split at hpi
  · obtain rfl := Option.some.inj hpi
    exact h wf hwf huses
  · cases hpi

end

/-! ### The deprecation -/

/-- The call of `DeprecateTaskSpec`. -/
def deprecating (ns : String) (uids : List String) : P Unit :=
  (deprecateTaskSpec ns uids).run.bind fun _ => .ret ()

/-- Task specifications are updated to deprecated ones only. -/
def deprecations : Discipline Op Ans Unit where
  may _
    | .update ⟨_, .wfTaskSpec, _⟩ spec _ => spec.isDeprecated = true
    | _ => True
  step _ _ _ _ := True

theorem ensures_deprecating (ns : String) (uids : List String) :
    deprecations.Ensures (fun _ => True) (deprecating ns uids) := by
  have hupdate (u : String) : Yields deprecations (fun _ => True)
      (updateObj (taskSpecLoc ns u) {} fun (v : TaskSpec) => .ok v.deprecate) := by
    refine yields_updateObj trivial ?_ (.inl trivial)
    rintro entry uv rev - ⟨⟩
    exact rfl
  have hdeprecate : Yields deprecations (fun _ => True) (deprecateTaskSpec ns uids) :=
    (yields_nsKVs trivial).andThen fun _ => Yields.forM fun u _ =>
      (hupdate u).wrap.andThen fun _ => yields_pure trivial
  exact Ensures.bind hdeprecate fun _ _ => ensures_ret trivial

/-- The specification that is stored, if there is one, is deprecated. -/
def World.Deprecated (w : World) (ns uid : String) : Prop :=
  ∀ spec : TaskSpec, w.value (taskSpecLoc ns uid) = some spec → spec.isDeprecated = true

theorem deprecated_of_commit {ns uid : String} {w w' : World}
    (h : env F o w r w') (hcommit : isCommitAt (taskSpecLoc ns uid) o r = true)
    (hmay : ∃ l, deprecations.may l o) : w'.Deprecated ns uid := by
  cases o with
  | update loc v rev =>
    obtain ⟨l, hv⟩ := hmay
    rcases h with ⟨-, rfl, rfl⟩ | ⟨-, -, rfl⟩ | ⟨-, -, text, rfl⟩
    · obtain rfl := of_decide_eq_true hcommit
      intro spec hspec
      rw [put_value_self] at hspec
      obtain rfl : v = spec := Option.some.inj hspec
      exact hv
    · cases hcommit
    · cases hcommit
  | _ => cases hcommit

/-- **A deprecated task is not started.** In any run, whatever the other threads do and whichever
calls fail: once `DeprecateTaskSpec` has updated the task, a starter that makes its first call later
creates no instance of a process with the task, if the task stays deprecated, no definition is
replaced by another one and the definitions guard the task. -/
theorem deprecated_task_not_started {ι : Type} [DecidableEq ι] {F : Op → Prop}
    {defs : String → Option Workflow} {ns uid : String} {uids : List String} {starter : Starter}
    {w : World} {threads : ι → P Unit} {d i : ι} (hd : threads d = deprecating ns uids)
    (hi : threads i = starter.program ns) {c : Config ι Op Ans World Unit}
    (hrun : Run (env F) (.start w threads) c) {later earlier : List (WEvent ι)} {e : WEvent ι}
    (htrace : c.trace = later ++ e :: earlier) (hthread : e.thread = d)
    (hcommit : isCommitAt (taskSpecLoc ns uid) e.op e.answer = true)
    (hlater : ∀ e' ∈ e :: earlier, e'.thread ≠ i) (hdeprecated : ∀ e' ∈ later, ∀ spec : TaskSpec,
      IsWrite (taskSpecLoc ns uid) spec e'.op e'.answer → spec.isDeprecated = true)
    (hdefs : w.DefinedBy defs)
    (hdefined : ∀ e' ∈ c.trace, ∀ id wf, definitionStored e'.op = some (id, wf) → defs id = some wf)
    (hguarded : starter.Guarded defs uid) :
    ∀ e' ∈ c.trace, e'.thread = i → ¬ CreatesInstance defs uid e'.op := by
  have hupdates := (Keeps.of_answered (hd ▸ ensures_deprecating ns uids) hrun
    fun _ _ _ _ _ => ⟨(), trivial⟩).2 e (htrace ▸ List.mem_append_right _ List.mem_cons_self)
    hthread
  have hset : ∀ w', env F e.op e.before e.answer w' → w'.Deprecated ns uid :=
    fun _ henv => deprecated_of_commit henv hcommit hupdates
  have hkeep : ∀ e' ∈ later, ∀ w', e'.before.Deprecated ns uid →
      env F e'.op e'.before e'.answer w' → w'.Deprecated ns uid := by
    intro e' he' w' hbefore henv spec hspec
    rcases value_of_env henv (taskSpecLoc ns uid) with hsame | hnone | ⟨v, hwrite, hv⟩
    · exact hbefore spec (hsame ▸ hspec)
    · rw [hnone] at hspec
      cases hspec
    · obtain rfl : v = spec := Option.mem_unique hv hspec
      exact hdeprecated e' he' v hwrite
  have hspec := (hrun.holds_since htrace hset hkeep).2
  have hknown := (hrun.holds_always (S := fun w => w.DefinedBy defs) hdefs
    fun e' he' w' hbefore henv => hbefore.step henv (hdefined e' he')).2
  have hanswered : ∀ e' ∈ c.trace, e'.thread = i → ∀ l, (starterConduct defs ns uid).may l e'.op →
      ∃ l', (starterConduct defs ns uid).step l e'.op e'.answer l' := by
    intro e' he' hi' l _
    have hmem : e' ∈ later := by
      rw [htrace] at he'
      exact (List.mem_append.1 he').resolve_right fun hearlier => hlater e' hearlier hi'
    obtain ⟨w', henv⟩ := hrun.answered e' he'
    refine exists_step_of_env henv (fun {loc v} hv => ?_)
      (fun hv => (hknown e' he').cached hv) (fun _ => trivial) (fun _ => trivial) trivial
    obtain ⟨ns', b, key⟩ := loc
    cases b with
    | wf => exact (hknown e' he').stored hv
    | wfTaskSpec =>
      rintro rfl rfl
      exact hspec e' hmem v hv
    | _ => trivial
  intro e' he' hi'
  obtain ⟨_, hmay⟩ := (Keeps.of_answered (hi ▸ ensures_program hguarded) hrun hanswered).2 e'
    he' hi'
  exact not_createsInstance_of_may hmay

/-! ### Two ways around the check -/

def orderProcess : Process where
  id := "order"
  elements := [{ id := "begin", type := .startEvent }]

/-- A process with a service task, which can be launched and has a timer as well. -/
def paymentProcess : Process where
  id := "payment"
  elements := [{ id := "enter", type := .startEvent },
    { id := "tick", type := .timedStartEvent, timer := some { value := 1 } },
    { id := "charge", type := .serviceTask, version := some "uid" }]

/-- A collaboration of the two processes. -/
def shop : Workflow where
  name := "shop"
  process := AList.insert "order" orderProcess (AList.insert "payment" paymentProcess ∅)
  collaboration := some [{ processId := "order" }, { processId := "payment" }]

def shopDefs (id : String) : Option Workflow := if id = "workflow" then some shop else none

def shopWorld : World :=
  { (((((({} : World).put ⟨"default", .wf, "workflow"⟩ shop).put
    ⟨"default", .wfProcess, "order"⟩ "shop").put
    ⟨"default", .wfProcess, "payment"⟩ "shop").put
    ⟨"default", .wfVersion, "shop"⟩ { version := [{ id := "workflow" }] }).put
    (taskSpecLoc "default" "uid") {}) with
    cache := shopDefs }

/-- The task is deprecated (`false`), and a starter is run (`true`). -/
def shopThreads (starter : Starter) : Bool → P Unit
  | false => deprecating "default" ["uid"]
  | true => starter.program "default"

/-- The deprecation has gone through before the starter has made its first call. -/
def deprecatedFirst (t : List (WEvent Bool)) : Bool :=
  match t.dropWhile (·.thread) with
  | [] => false
  | e :: earlier => isCommitAt (taskSpecLoc "default" "uid") e.op e.answer &&
      (e :: earlier).all fun e => !e.thread

variable {t : List (WEvent Bool)}

theorem exists_split_of_deprecatedFirst (h : deprecatedFirst t = true) :
    ∃ later e earlier, t = later ++ e :: earlier ∧
      isCommitAt (taskSpecLoc "default" "uid") e.op e.answer = true ∧
      (∀ e' ∈ later, e'.thread = true) ∧ ∀ e' ∈ e :: earlier, e'.thread = false := by
  unfold deprecatedFirst at h
  split at h
  · cases h
  · rename_i e earlier hdrop
    rw [Bool.and_eq_true, all_eq_true] at h
    refine ⟨t.takeWhile (·.thread), e, earlier, ?_, h.1, fun e' he' => mem_takeWhile_imp he',
      fun e' he' => by simpa using h.2 e' he'⟩
    rw [← hdrop, takeWhile_append_dropWhile]

/-- The process `payment` is launched, with the task among its own elements. -/
def launchPayment : Starter := .launch (constLib ∅) "payment" [] [] [] "" ""

theorem shopWorld_definedBy : shopWorld.DefinedBy shopDefs where
  stored {ns id wf} hv := by
    by_cases hloc : (⟨ns, .wf, id⟩ : Loc) = ⟨"default", .wf, "workflow"⟩
    · obtain ⟨rfl, rfl⟩ : ns = "default" ∧ id = "workflow" := by simpa using hloc
      exact hv
    · have hnone : shopWorld.value ⟨ns, .wf, id⟩ = none := by
        simp [shopWorld, World.value, World.put, Function.update, hloc]
      rw [hnone] at hv
      cases hv
  cached hv := hv

theorem guarded_launchPayment : launchPayment.Guarded shopDefs "uid" := by
  intro id wf hwf participants prs pr _ _ _ _
  obtain rfl : shop = wf := by
    by_cases hid : id = "workflow"
    · simpa [shopDefs, hid] using hwf
    · simp [shopDefs, hid] at hwf
  exact ⟨paymentProcess, rfl, { id := "charge", type := .serviceTask, version := some "uid" },
    by simp [paymentProcess], rfl, rfl⟩

theorem deprecated_task_not_started_payment :
    ∃ c, Run (env noFault) (.start shopWorld (shopThreads launchPayment)) c ∧
      (c.threads true).result?.isSome = true ∧
      ∀ e ∈ c.trace, e.thread = true → ¬ CreatesInstance shopDefs "uid" e.op := by
  obtain ⟨c, hrun, hreturned, hfirst, hall⟩ := exists_run_of_reaches noFault
    (.start shopWorld (shopThreads launchPayment))
    (List.replicate 5 (false, .ok) ++ List.replicate 7 (true, .hit))
    (fun c => (c.threads true).result?.isSome ∧ deprecatedFirst c.trace ∧
      ∀ e ∈ c.trace, (definitionStored e.op).isNone ∧
        (!e.thread || !isStoreAt (taskSpecLoc "default" "uid") e.op e.answer))
    (by decide +kernel)
  obtain ⟨later, e, earlier, htrace, hcommit, hstarter, hearlier⟩ :=
    exists_split_of_deprecatedFirst hfirst
  refine ⟨c, hrun, hreturned, deprecated_task_not_started (d := false) rfl rfl hrun htrace
    (hearlier e List.mem_cons_self) hcommit (fun e' he' => by simp [hearlier e' he']) ?_
    shopWorld_definedBy ?_ guarded_launchPayment⟩
  · intro e' he' spec hwrite
    have hstore := (hall e' (htrace ▸ List.mem_append_left _ he')).2
    rw [hstarter e' he', hwrite.isStoreAt] at hstore
    cases hstore
  · intro e' he' id wf hstored
    have hnone := (hall e' he').1
    rw [hstored] at hnone
    cases hnone

/-- The process `order` is launched, and `payment` with it. -/
def launchOrder : Starter := .launch (constLib ∅) "order" [] [] [] "" ""

/-- The timer of the process `payment` fires. -/
def timedPayment : Starter :=
  .timed (constLib ∅) 5
    { workflowId := "workflow", processId := "payment", elementId := "tick", timer := some ⟨0, 0⟩ }

/-- In some run in which the starter makes its first call after `DeprecateTaskSpec` has updated the
task, it creates an instance of a process with the task. -/
def StartsDeprecated (starter : Starter) : Prop :=
  ∃ c later e earlier,
    Run (env noFault) (.start shopWorld (shopThreads starter)) c ∧
    c.trace = later ++ e :: earlier ∧
    isCommitAt (taskSpecLoc "default" "uid") e.op e.answer = true ∧
    (∀ e' ∈ e :: earlier, e'.thread = false) ∧
    ∃ e' ∈ c.trace, e'.thread = true ∧ CreatesInstance shopDefs "uid" e'.op

/-- An instance of the process `payment` is created by the starter. -/
def createsPayment (t : List (WEvent Bool)) : Bool :=
  t.any fun e => e.thread && (instanceCreated e.op).any fun pi =>
    pi.workflowId = "workflow" && pi.processId = "payment"

theorem createsInstance_of_createsPayment (h : createsPayment t = true) :
    ∃ e ∈ t, e.thread = true ∧ CreatesInstance shopDefs "uid" e.op := by
  obtain ⟨e, he, htest⟩ := any_eq_true.1 h
  rw [Bool.and_eq_true, Option.any_eq_true] at htest
  obtain ⟨hthread, pi, hpi, hids⟩ := htest
  rw [Bool.and_eq_true, decide_eq_true_eq, decide_eq_true_eq] at hids
  refine ⟨e, he, hthread, pi, shop, hpi, by rw [hids.1]; rfl, "payment", paymentProcess, rfl,
    hids.2.symm, { id := "charge", type := .serviceTask, version := some "uid" }, ?_, rfl, rfl⟩
  simp [paymentProcess, Process.allElements]

/-- The steps of the update, and then those of the starter. -/
theorem startsDeprecated_of_reaches {n : Nat}
    (h : (Config.start shopWorld (shopThreads starter)).reaches (World.pick noFault)
      (List.replicate 5 (false, .ok) ++ List.replicate n (true, .ok))
      (fun c => deprecatedFirst c.trace ∧ createsPayment c.trace) = true) :
    StartsDeprecated starter := by
  obtain ⟨c, hrun, hfirst, hcreates⟩ := exists_run_of_reaches noFault _ _ _ h
  obtain ⟨later, e, earlier, htrace, hcommit, -, hearlier⟩ := exists_split_of_deprecatedFirst hfirst
  exact ⟨c, later, e, earlier, hrun, htrace, hcommit, hearlier,
    createsInstance_of_createsPayment hcreates⟩

/-- **The task is started although it is deprecated**, by another participant of the collaboration
and by a timer. -/
theorem deprecated_task_started : StartsDeprecated launchOrder ∧ StartsDeprecated timedPayment :=
  ⟨startsDeprecated_of_reaches (n := 45) (by decide +kernel),
    startsDeprecated_of_reaches (n := 27) (by decide +kernel)⟩

end SharWorkflow
