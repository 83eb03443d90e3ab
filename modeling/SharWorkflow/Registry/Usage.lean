import SharWorkflow.Api.Endpoints
import SharWorkflow.Registry.Queries

/-!
# The usage of a task

`GetTaskSpecUsage` reports which process instances execute a task, and a task that is executing is
not deprecated. The report is collected by two loops. The first one looks at the processes of the
newest version of each workflow, and finds those with the task. The second one goes over all process
instances, and looks neither at their processes nor at the task. So the report is right exactly if
every process instance executes the task.

* `World.runsTask`: the instance runs a process with one of the tasks, in the version it runs.
* `World.Resolvable`: the newest version of every workflow is there. Without it there is no report.
* `TaskSpecUsageReport.Exact`: the report lists the instances that run one of the tasks.
* `usageRight_iff`: **the report is exact**, and a refusal justified, if and only if all instances
  run one of the tasks.
-/

namespace SharWorkflow

open Concurrent List World

-- sequences are split by `ends_seq`
attribute [-simp] ExceptT.run_bind

variable {ns : String} {w : World} {uid : List String} {X : Prop}

/-! ### What a report should say -/

/-- The process instance runs a process that has one of the tasks. -/
def World.runsTask (w : World) (ns : String) (uid : List String) (pi : ProcessInstance) : Prop :=
  ∃ wf : Workflow, w.value ⟨ns, .wf, pi.workflowId⟩ = some wf ∧
    ∃ u ∈ uid, wf.usesTask u pi.processId

/-- **An exact report**: the executing instances are those of the stored ones that run one of the
tasks, and the executing workflows are theirs. -/
structure TaskSpecUsageReport.Exact (report : TaskSpecUsageReport) (w : World) (ns : String)
    (uid : List String) : Prop where
  instances : ∀ key (pi : ProcessInstance), w.value ⟨ns, .wfProcessInstance, key⟩ = some pi →
    (pi.processInstanceId ∈ report.executingProcessInstance ↔ w.runsTask ns uid pi)
  stored : ∀ id ∈ report.executingProcessInstance, ∃ key, ∃ pi : ProcessInstance,
    w.value ⟨ns, .wfProcessInstance, key⟩ = some pi ∧ pi.processInstanceId = id
  workflows : ∀ id, id ∈ report.executingWorkflow ↔ ∃ key, ∃ pi : ProcessInstance,
    w.value ⟨ns, .wfProcessInstance, key⟩ = some pi ∧ w.runsTask ns uid pi ∧ pi.workflowId = id

/-- **The usage is right**: there is an exact report, and whoever is allowed to deprecate a task is
refused only when an instance runs the task. -/
structure UsageRight (w : World) (ns : String) (uid : List String) : Prop where
  report : Ends (env noFault) False
    (fun _ r => ∃ report, r = .ok report ∧ report.Exact w ns uid) w (getTaskSpecUsage ns uid).run
  refused : ∀ a name, uid = [name] → Ends (env noFault) True
    (fun _ r => ∀ usage, r = .ok ⟨usage, false⟩ → ∃ key, ∃ pi : ProcessInstance,
      w.value ⟨ns, .wfProcessInstance, key⟩ = some pi ∧ w.runsTask ns uid pi) w
    (deprecateServiceTask a ns name).run

/-- The newest version of every workflow is there, with its definition. -/
def World.Resolvable (w : World) (ns : String) : Prop :=
  ∀ name, ∀ v : WorkflowVersions, w.value ⟨ns, .wfVersion, name⟩ = some v →
    ∃ newest, v.version.getLast? = some newest ∧ w.value ⟨ns, .wf, newest.id⟩ ≠ none

/-! ### The two loops -/

/-- The id of the newest version of a workflow. -/
def World.newestId (w : World) (ns name : String) : Option String :=
  ((w.value ⟨ns, .wfVersion, name⟩).bind fun v : WorkflowVersions => v.version.getLast?).map (·.id)

theorem ends_newestIds_iff {keys : List String} (hkeys : w.VersionKeys ns keys)
    {Q : World → Except Err (List String) → Prop} :
    Ends (env noFault) False Q w (newestIds ns keys).run ↔
      w.HaveVersions ns keys ∧ Q w (.ok (keys.filterMap (w.newestId ns))) := by
  induction keys generalizing Q with
  | nil => exact ends_pure.trans (and_iff_right fun _ => nofun).symm
  | cons k rest ih =>
    obtain ⟨v, hv⟩ := Option.ne_none_iff_exists'.1 (hkeys k mem_cons_self)
    have ih {Q} := @ih (fun k' hk' => hkeys k' (mem_cons_of_mem _ hk')) Q
    have hhave : w.HaveVersions ns (k :: rest) ↔ v.version ≠ [] ∧ w.HaveVersions ns rest := by
      simp only [World.HaveVersions, forall_mem_cons, hv, Option.some.injEq, forall_eq']
    rw [newestIds, ends_seq, ends_wrap, ends_loadVersions, hhave]
    simp only [hv, reduceCtorEq, false_imp_iff, true_and, Option.some.injEq, forall_eq',
      mapError_ok, ends_seq, ends_deref, ih, ends_pure]
    rw [ne_eq, ← List.getLast?_eq_none_iff]
    cases hlast : v.version.getLast? with
    | none => simp
    | some newest =>
      have hid : w.newestId ns k = some newest.id := by simp [World.newestId, hv, hlast]
      simp [hid]

theorem ends_loadWorkflow {id : String} {Q : World → Except Err Workflow → Prop} :
    Ends (env noFault) X Q w (loadObj ⟨ns, .wf, id⟩).run ↔
      (w.value ⟨ns, .wf, id⟩ = none → Q w (.error (loadNotFound ⟨ns, .wf, id⟩))) ∧
        ∀ wf : Workflow, w.value ⟨ns, .wf, id⟩ = some wf → Q w (.ok wf) := by
  refine (@ends_loadObj _ X w ⟨ns, .wf, id⟩ Q).trans ?_
  simp only [noFault_iff, false_imp_iff, and_true]

/-- The first loop finds the users of the task, or finds out that a definition is missing. -/
theorem ends_taskUsers (uid ids : List String) : Ends (env noFault) X
      (fun w' r => w' = w ∧ ((∃ users, r = .ok users) ↔ ∀ id ∈ ids, w.value ⟨ns, .wf, id⟩ ≠ none)) w
      (taskUsers ns uid ids).run := by
  induction ids with
  | nil => exact ends_pure.2 ⟨rfl, by simp⟩
  | cons id rest ih =>
    rw [taskUsers, ends_seq, ends_mapError, ends_loadWorkflow]
    refine ⟨fun hnone => ⟨rfl, by simp [hnone]⟩, fun wf hwf => ends_seq.2 (ih.mono ?_)⟩
    rintro w' (e | more) ⟨rfl, hiff⟩
    · refine ⟨rfl, ?_⟩
      simp only [forall_mem_cons, hwf, ne_eq, reduceCtorEq, not_false_eq_true, true_and, ← hiff]
    · refine ends_pure.2 ⟨rfl, ?_⟩
      simp only [forall_mem_cons, hwf, ne_eq, reduceCtorEq, not_false_eq_true, true_and, ← hiff,
        Except.ok.injEq, exists_eq']

/-- The second loop finds every instance. -/
theorem ends_executingInstances {keys : List String}
    (hkeys : ∀ k ∈ keys, w.value ⟨ns, .wfProcessInstance, k⟩ ≠ none)
    {Q : World → Except Err (List ProcessInstance) → Prop} :
    Ends (env noFault) X Q w (executingInstances ns keys).run ↔
      Q w (.ok (keys.filterMap fun k => w.value ⟨ns, .wfProcessInstance, k⟩)) := by
  induction keys generalizing Q with
  | nil => exact ends_pure
  | cons k rest ih =>
    obtain ⟨pi, hpi⟩ := Option.ne_none_iff_exists'.1 (hkeys k mem_cons_self)
    have ih {Q} := @ih (fun k' hk' => hkeys k' (mem_cons_of_mem _ hk')) Q
    rw [executingInstances, ends_seq, ends_wrap, @ends_loadObj _ X w ⟨ns, .wfProcessInstance, k⟩]
    simp only [hpi, reduceCtorEq, false_imp_iff, true_and, Option.some.injEq, forall_eq',
      mapError_ok, noFault_iff, and_true, ends_seq, ih, ends_pure]
    rw [filterMap_cons, hpi]

/-- The workflows are those with a list of versions, and there may be none. -/
theorem ends_executableIds {text : String} {Q : World → Except Err (Option (List String)) → Prop} :
    Ends (env noFault) False Q w
        (Act.wrap text (Act.optional [.noKeysFound] (getExecutableWorkflowIds ns))).run ↔
      (w.keysIn ns .wfVersion = [] → Q w (.ok none)) ∧
        (w.keysIn ns .wfVersion ≠ [] → ∀ keys : List String, keys.Perm (w.keysIn ns .wfVersion) →
          w.HaveVersions ns keys ∧ Q w (.ok (some (keys.filterMap (w.newestId ns))))) := by
  rw [ends_wrap, ends_optional, getExecutableWorkflowIds, ends_seq, ends_wrap, ends_kvsFor]
  simp only [noFault_iff, false_imp_iff, and_true, mapError_ok]
  rw [ends_seq, ends_wrap, ends_kvKeys]
  refine and_congr Iff.rfl (imp_congr_right fun _ => forall_congr' fun keys =>
    imp_congr_right fun hperm => ?_)
  exact ends_newestIds_iff fun k hk => w.value_of_mem_keysIn (hperm.mem_iff.1 hk)

/-! ### The report -/

/-- What is reported as executing: all instances, and their workflows. -/
structure TaskSpecUsageReport.Lists (report : TaskSpecUsageReport) (w : World) (ns : String) :
    Prop where
  instances : ∀ id, id ∈ report.executingProcessInstance ↔ ∃ key, ∃ pi : ProcessInstance,
    w.value ⟨ns, .wfProcessInstance, key⟩ = some pi ∧ pi.processInstanceId = id
  workflows : ∀ id, id ∈ report.executingWorkflow ↔ ∃ key, ∃ pi : ProcessInstance,
    w.value ⟨ns, .wfProcessInstance, key⟩ = some pi ∧ pi.workflowId = id

theorem ends_usageReport (users : List (String × String)) {executing : List ProcessInstance}
    (h : ∀ pi, pi ∈ executing ↔ ∃ key, w.value ⟨ns, .wfProcessInstance, key⟩ = some pi) :
    Ends (env noFault) X (fun w' r => w' = w ∧ ∃ report, r = .ok report ∧
      report.Lists w ns) w (usageReport users executing).run := by
  refine ends_seq.2 (ends_mapOrder.2 fun _ _ => ends_seq.2 (ends_mapOrder.2 fun _ _ => ?_))
  have hmem {order : List String} {g : ProcessInstance → String}
      (horder : order.Perm (executing.map g).dedup) (id : String) : id ∈ order ↔
        ∃ key pi, w.value ⟨ns, .wfProcessInstance, key⟩ = some pi ∧ g pi = id := by
    simp only [horder.mem_iff, mem_dedup, mem_map, h]
    exact ⟨fun ⟨pi, ⟨key, hpi⟩, hid⟩ => ⟨key, pi, hpi, hid⟩,
      fun ⟨key, pi, hpi, hid⟩ => ⟨pi, ⟨key, hpi⟩, hid⟩⟩
  exact ends_seq.2 (ends_mapOrder.2 fun _ hworkflows => ends_seq.2 (ends_mapOrder.2
    fun _ hinstances => ends_pure.2 ⟨rfl, _, rfl, hmem hinstances, hmem hworkflows⟩))

/-- The second half of `GetTaskSpecUsage` lists all instances. -/
theorem ends_usageExecuting (hlisted : w.Listed) (users : List (String × String)) :
    Ends (env noFault) X (fun w' r => w' = w ∧ ∃ report, r = .ok report ∧
      report.Lists w ns) w (do
        let piKeys ← Act.wrap "task spec usage by name get process instance keys"
          (Act.optional [.noKeysFound] (kvKeys ns .wfProcessInstance))
        let executing ← executingInstances ns (piKeys.getD [])
        usageReport users executing : Act TaskSpecUsageReport).run := by
  rw [ends_seq, ends_wrap, ends_optional, ends_kvKeys]
  refine ⟨fun hnone => ?_, fun _ keys hperm => ?_⟩
  · refine ends_seq.2 ((ends_executingInstances fun k hk => absurd hk not_mem_nil).2
      (ends_usageReport users fun pi => ?_))
    refine ⟨fun h => absurd h not_mem_nil, fun ⟨key, hpi⟩ => ?_⟩
    have hmem : key ∈ w.keysIn ns .wfProcessInstance := hlisted.mem_keysIn (by simp [hpi])
    rw [hnone] at hmem
    exact absurd hmem not_mem_nil
  · refine ends_seq.2 ((ends_executingInstances fun k hk => ?_).2 (ends_usageReport users
      fun pi => ?_))
    · exact w.value_of_mem_keysIn (hperm.mem_iff.1 hk)
    refine mem_filterMap.trans ⟨fun ⟨key, _, hpi⟩ => ⟨key, hpi⟩, fun ⟨key, hpi⟩ => ⟨key, ?_, hpi⟩⟩
    exact hperm.mem_iff.2 (hlisted.mem_keysIn (by simp [hpi]))

theorem World.newestId_eq_some {name id : String} :
    w.newestId ns name = some id ↔ ∃ v : WorkflowVersions, w.value ⟨ns, .wfVersion, name⟩ = some v ∧
      ∃ newest, v.version.getLast? = some newest ∧ newest.id = id := by
  simp only [World.newestId, Option.map_eq_some_iff, Option.bind_eq_some_iff]
  constructor
  · rintro ⟨newest, ⟨v, hv, hnewest⟩, hid⟩
    exact ⟨v, hv, newest, hnewest, hid⟩
  · rintro ⟨v, hv, newest, hnewest, hid⟩
    exact ⟨newest, ⟨v, hv, hnewest⟩, hid⟩

/-- **What is reported**: without missing definitions there is a report, and it lists all
instances. -/
theorem ends_getTaskSpecUsage (hlisted : w.Listed) (hres : w.Resolvable ns) (uid : List String) :
    Ends (env noFault) False (fun w' r => w' = w ∧ ∃ report, r = .ok report ∧
      report.Lists w ns) w (getTaskSpecUsage ns uid).run := by
  rw [getTaskSpecUsage, ends_seq, ends_nsKVs]
  refine ⟨ends_seq.2 (ends_executableIds.2 ⟨fun _ => ?_, fun _ keys _ => ⟨?_, ?_⟩⟩), nofun⟩
  · refine ends_seq.2 ((ends_taskUsers uid []).mono ?_)
    rintro w' r ⟨rfl, hr⟩
    obtain ⟨users, rfl⟩ := hr.2 nofun
    exact ends_usageExecuting hlisted users
  · intro k _ v hv hnil
    obtain ⟨newest, hnewest, -⟩ := hres k v hv
    simp [hnil] at hnewest
  · refine ends_seq.2 ((ends_taskUsers uid _).mono ?_)
    rintro w' r ⟨rfl, hr⟩
    obtain ⟨users, rfl⟩ := hr.2 fun id hid => by
      obtain ⟨k, -, hk⟩ := mem_filterMap.1 hid
      obtain ⟨v, hv, newest, hnewest, rfl⟩ := newestId_eq_some.1 hk
      obtain ⟨newest', hnewest', hwf⟩ := hres k v hv
      obtain rfl : newest = newest' := Option.mem_unique hnewest hnewest'
      exact hwf
    exact ends_usageExecuting hlisted users

/-- A report is there only if no definition is missing. -/
theorem resolvable_of_report (hlisted : w.Listed)
    (h : Ends (env noFault) False (fun _ r => ∃ report, r = .ok report) w
      (getTaskSpecUsage ns uid).run) : w.Resolvable ns := by
  intro name v hv
  have hmem : name ∈ w.keysIn ns .wfVersion := hlisted.mem_keysIn (by simp [hv])
  rw [getTaskSpecUsage, ends_seq, ends_nsKVs] at h
  obtain ⟨hhave, hrest⟩ := (ends_executableIds.1 (ends_seq.1 h.1)).2 (ne_nil_of_mem hmem) _
    (.refl _)
  -- the first loop has returned, and so has found every definition
  obtain ⟨w', r, hexec, hr⟩ := (ends_seq.1 hrest).can
  obtain ⟨rfl, hiff⟩ := (ends_taskUsers (X := False) uid _).exec hexec
  have hstored := hiff.1 (by
    cases r with
    | ok users => exact ⟨users, rfl⟩
    | error e => simp at hr)
  obtain ⟨newest, hnewest⟩ := Option.ne_none_iff_exists'.1
    (List.getLast?_eq_none_iff.not.2 (hhave name hmem v hv))
  refine ⟨newest, hnewest, hstored newest.id (mem_filterMap.2 ⟨name, hmem, ?_⟩)⟩
  exact newestId_eq_some.2 ⟨v, hv, newest, hnewest, rfl⟩

/-- A report that lists all instances is exact if all of them run one of the tasks. -/
theorem TaskSpecUsageReport.Lists.exact_iff {report : TaskSpecUsageReport}
    (h : report.Lists w ns) : report.Exact w ns uid ↔ ∀ key, ∀ pi : ProcessInstance,
      w.value ⟨ns, .wfProcessInstance, key⟩ = some pi → w.runsTask ns uid pi := by
  constructor
  · intro hexact key pi hpi
    exact (hexact.instances key pi hpi).1 ((h.instances _).2 ⟨key, pi, hpi, rfl⟩)
  · intro hall
    refine ⟨fun key pi hpi => ?_, fun id hid => (h.instances id).1 hid, fun id => ?_⟩
    · exact iff_of_true ((h.instances _).2 ⟨key, pi, hpi, rfl⟩) (hall key pi hpi)
    · refine (h.workflows id).trans ⟨fun ⟨key, pi, hpi, hid⟩ => ?_, fun ⟨key, pi, hpi, _, hid⟩ =>
        ?_⟩
      · exact ⟨key, pi, hpi, hall key pi hpi, hid⟩
      · exact ⟨key, pi, hpi, hid⟩

/-- A refusal means that there is a process instance. -/
theorem refused_of_instance (hlisted : w.Listed) (hres : w.Resolvable ns) (a : Auth)
    (name : String) :
    Ends (env noFault) True (fun _ r => ∀ usage, r = .ok ⟨usage, false⟩ →
      ∃ key, ∃ pi : ProcessInstance, w.value ⟨ns, .wfProcessInstance, key⟩ = some pi) w
      (deprecateServiceTask a ns name).run := by
  have hauth : Ends (env noFault) True (fun w' _ => w' = w) w
      (Act.wrap ("authorize " ++ a.shownFunc) (authForNonWorkflow a)).run := by
    simp [authForNonWorkflow]
  refine ends_seq.2 (hauth.mono ?_)
  rintro w' (e | _) rfl
  · exact nofun
  refine ends_seq.2 (ends_wrap.2 (((ends_getTaskSpecUsage hlisted hres [name]).imp nofun).mono ?_))
  rintro w' r ⟨rfl, report, rfl, hreport⟩
  refine ends_run_ite.2 ⟨fun hpos => ends_pure.2 fun usage _ => ?_, fun _ => ?_⟩
  · rcases Nat.add_pos_iff_pos_or_pos.1 hpos with hpos | hpos
    · obtain ⟨id, hid⟩ := exists_mem_of_length_pos hpos
      obtain ⟨key, pi, hpi, -⟩ := (hreport.workflows id).1 hid
      exact ⟨key, pi, hpi⟩
    · obtain ⟨id, hid⟩ := exists_mem_of_length_pos hpos
      obtain ⟨key, pi, hpi, -⟩ := (hreport.instances id).1 hid
      exact ⟨key, pi, hpi⟩
  · have hdeprecated : Ends (env noFault) True (fun _ _ => True) w'
        (deprecateTaskSpec ns [name]).run := by
      simp [deprecateTaskSpec, ends_updateObjMsg]
    refine ends_seq.2 (ends_wrap.2 (hdeprecated.mono fun w'' r _ => ?_))
    cases r with
    | error e => exact nofun
    | ok _ => exact ends_pure.2 nofun

/-- **The usage of tasks is right exactly if every process instance runs one of them.** -/
theorem usageRight_iff (hlisted : w.Listed) :
    UsageRight w ns uid ↔ w.Resolvable ns ∧ ∀ key, ∀ pi : ProcessInstance,
      w.value ⟨ns, .wfProcessInstance, key⟩ = some pi → w.runsTask ns uid pi := by
  constructor
  · intro h
    have hres : w.Resolvable ns := resolvable_of_report hlisted
      (h.report.mono fun _ _ ⟨report, hr, _⟩ => ⟨report, hr⟩)
    obtain ⟨w', r, hexec, report, rfl, hexact⟩ := h.report.can
    obtain ⟨-, report', hr, hlists⟩ := (ends_getTaskSpecUsage hlisted hres uid).exec hexec
    obtain rfl := Except.ok.inj hr
    exact ⟨hres, hlists.exact_iff.1 hexact⟩
  · rintro ⟨hres, hall⟩
    refine ⟨(ends_getTaskSpecUsage hlisted hres uid).mono ?_, fun a name _ => ?_⟩
    · rintro w' r ⟨-, report, rfl, hlists⟩
      exact ⟨report, rfl, hlists.exact_iff.2 hall⟩
    · refine (refused_of_instance hlisted hres a name).mono fun w' r hr usage husage => ?_
      obtain ⟨key, pi, hpi⟩ := hr usage husage
      exact ⟨key, pi, hpi, hall key pi hpi⟩

/-! ### Two workflows -/

/-- A workflow with one process, which has one service task. -/
def oneTaskWorkflow (name uid : String) : Workflow where
  name := name
  process := AList.singleton "process"
    { id := "process", elements := [{ id := "task", type := .serviceTask, version := some uid }] }

/-- An instance of the first of two workflows. -/
def runningInstance : ProcessInstance where
  processInstanceId := "pi"
  workflowId := "wf-a"
  workflowName := "a"
  processId := "process"

/-- Two workflows with a task each. Only the first one has a process instance. -/
def twoWorkflows : World :=
  ((((({} : World).put ⟨"default", .wf, "wf-a"⟩ (oneTaskWorkflow "a" "task-a")).put
    ⟨"default", .wfVersion, "a"⟩ ({ version := [⟨"wf-a", [], 1⟩] } : WorkflowVersions)).put
    ⟨"default", .wf, "wf-b"⟩ (oneTaskWorkflow "b" "task-b")).put
    ⟨"default", .wfVersion, "b"⟩ ({ version := [⟨"wf-b", [], 1⟩] } : WorkflowVersions)).put
    ⟨"default", .wfProcessInstance, "pi"⟩ runningInstance

theorem twoWorkflows_instance {key : String} {pi : ProcessInstance}
    (h : twoWorkflows.value ⟨"default", .wfProcessInstance, key⟩ = some pi) :
    pi = runningInstance := by
  by_cases hkey : key = "pi"
  · subst hkey
    exact (Option.some.inj h).symm
  · simp [twoWorkflows, hkey] at h

theorem twoWorkflows_resolvable : twoWorkflows.Resolvable "default" := by
  intro name v hv
  by_cases hb : name = "b"
  · subst hb
    obtain rfl := Option.some.inj hv
    exact ⟨_, rfl, by simp [twoWorkflows]⟩
  by_cases ha : name = "a"
  · subst ha
    obtain rfl := Option.some.inj hv
    exact ⟨_, rfl, by simp [twoWorkflows]⟩
  · simp [twoWorkflows, ha, hb] at hv

theorem oneTaskWorkflow_usesTask {name uid u : String} :
    (oneTaskWorkflow name uid).usesTask u "process" ↔ uid = u := by
  constructor
  · rintro ⟨key, pr, hpr, -, el, hel, -, hversion⟩
    obtain rfl : key = "process" := by
      by_contra hkey
      have hnone : (oneTaskWorkflow name uid).process.lookup key = none :=
        AList.lookup_eq_none.2 (by simpa [oneTaskWorkflow, AList.mem_keys] using hkey)
      rw [hnone] at hpr
      cases hpr
    obtain rfl := Option.some.inj hpr
    obtain rfl := mem_singleton.1 hel
    exact Option.some.inj hversion
  · rintro rfl
    exact ⟨"process", _, rfl, rfl, _, mem_cons_self, rfl, rfl⟩

/-- The instance runs the task of its own workflow only. -/
theorem twoWorkflows_runsTask {key u : String} {pi : ProcessInstance}
    (h : twoWorkflows.value ⟨"default", .wfProcessInstance, key⟩ = some pi) :
    twoWorkflows.runsTask "default" [u] pi ↔ u = "task-a" := by
  obtain rfl := twoWorkflows_instance h
  have hstored : twoWorkflows.value ⟨"default", .wf, runningInstance.workflowId⟩ =
      some (oneTaskWorkflow "a" "task-a") := rfl
  have huses := @oneTaskWorkflow_usesTask "a" "task-a" u
  constructor
  · rintro ⟨wf, hwf, u', hu', h⟩
    obtain rfl := Option.mem_unique hstored hwf
    obtain rfl := mem_singleton.1 hu'
    exact (huses.1 h).symm
  · intro hu
    exact ⟨_, hstored, u, mem_cons_self, huses.2 hu.symm⟩

theorem usageRight_runningTask : UsageRight twoWorkflows "default" ["task-a"] :=
  (usageRight_iff (((((listed_empty.put _ _).put _ _).put _ _).put _ _).put _ _)).2
    ⟨twoWorkflows_resolvable, fun _ _ h => (twoWorkflows_runsTask h).2 rfl⟩

/-- **A task that nobody runs is reported as executing**, and its deprecation is refused. -/
theorem idleTask_refused : ∃ w' usage, Exec (env noFault) twoWorkflows
        (deprecateServiceTask { authN := some "user" } "default" "task-b").run w'
          (.ok ⟨usage, false⟩) ∧
      "pi" ∈ usage.executingProcessInstance ∧ ¬ ∃ key, ∃ pi : ProcessInstance,
        twoWorkflows.value ⟨"default", .wfProcessInstance, key⟩ = some pi ∧
          twoWorkflows.runsTask "default" ["task-b"] pi := by
  obtain ⟨w', r, hexec, htest⟩ := exists_exec_of_reaches noFault twoWorkflows
    (deprecateServiceTask { authN := some "user" } "default" "task-b").run (List.replicate 13 .ok)
    (fun _ r => match r with
      | .ok answer => !answer.success && answer.usage.executingProcessInstance.contains "pi"
      | .error _ => false) (by decide +kernel)
  cases r with
  | error e => cases htest
  | ok answer =>
    obtain ⟨usage, success⟩ := answer
    obtain ⟨hsuccess, hlisted⟩ : success = false ∧ "pi" ∈ usage.executingProcessInstance := by
      simpa using htest
    subst hsuccess
    refine ⟨w', usage, hexec, hlisted, ?_⟩
    rintro ⟨key, pi, hpi, hruns⟩
    have htask := (twoWorkflows_runsTask hpi).1 hruns
    simp at htask

end SharWorkflow
