import SharWorkflow.Registry.Footprint

/-!
# The queries of the registry

The queries take the last version of a list without looking whether there is one. A launch moreover
uses the versions of the workflow of a process, the process in the definition that it reads, its
collaboration and the versions of its service tasks without looking whether they are there. They all
rely on a registry that is **sound**.

* `World.Listed`: what is stored is listed.
* `World.RegistrySound`: a sound registry.
* `QueriesSafe`: **the queries are safe**, for every argument they return a result or an error.
* `World.RegistrySound.queriesSafe`: they are on a sound registry.
-/

namespace SharWorkflow

open Concurrent List World

-- sequences are split by `ends_seq`
attribute [-simp] ExceptT.run_bind

variable {lib : Lib} {ns : String} {w : World} {X : Prop} {F : Op → Prop}

/-! ### What is listed -/

/-- Every location that holds an object was written. -/
def World.Listed (w : World) : Prop := ∀ l, w.value l ≠ none → l ∈ w.written

theorem World.listed_empty : ({} : World).Listed := fun _ h => absurd rfl h

theorem World.Listed.put (h : w.Listed) (l : Loc) (v : l.Val) : (w.put l v).Listed := by
  intro l' hl'
  by_cases heq : l' = l
  · exact heq ▸ mem_cons_self
  · exact mem_cons_of_mem _ (h l' (by rwa [put_value_of_ne w v heq] at hl'))

theorem World.Listed.clear (h : w.Listed) (l : Loc) : (w.clear l).Listed := by
  intro l' hl'
  by_cases heq : l' = l
  · subst heq
    exact absurd (clear_value_self w l') hl'
  · exact h l' (by rwa [clear_value_of_ne w heq] at hl')

variable {F : Op → Prop} {w' : World}

/-- What is stored is listed after a call if it was before. -/
theorem World.Listed.call {o : Op} {r : Ans o} (h : w.Listed)
    (henv : env F o w r w') : w'.Listed := by
  cases effect_of_env henv with
  | put l v | create l v | update l v => exact h.put l v
  | delete l => exact h.clear l
  | _ => exact h

theorem World.Listed.exec {α : Type} {p : P α} {a : α}
    (h : w.Listed) (hexec : Exec (env F) w p w' a) : w'.Listed := by
  induction hexec with
  | ret => exact h
  | call answered _ ih => exact ih (h.call answered)
  | loop _ ih => exact ih h

variable {b : Bucket} {key : String}

theorem World.value_of_mem_keysIn (h : key ∈ w.keysIn ns b) : w.value ⟨ns, b, key⟩ ≠ none := by
  simp only [World.keysIn, mem_dedup, mem_map, mem_filter, decide_eq_true_eq] at h
  obtain ⟨⟨ns', b', key'⟩, ⟨-, rfl, rfl, hsome⟩, rfl⟩ := h
  exact Option.isSome_iff_ne_none.1 hsome

theorem World.Listed.mem_keysIn (h : w.Listed)
    (hvalue : w.value ⟨ns, b, key⟩ ≠ none) : key ∈ w.keysIn ns b := by
  simp only [World.keysIn, mem_dedup, mem_map, mem_filter, decide_eq_true_eq]
  exact ⟨_, ⟨h _ hvalue, rfl, rfl, Option.isSome_iff_ne_none.2 hvalue⟩, rfl⟩

/-- The keys come in some order, and an empty bucket is an error. -/
theorem ends_kvKeys {Q : World → Except Err (List String) → Prop} :
    Ends (env noFault) X Q w (kvKeys ns b).run ↔ (w.keysIn ns b = [] →
      Q w (.error (.sentinel .noKeysFound))) ∧ (w.keysIn ns b ≠ [] → ∀ keys : List String, keys.Perm
      (w.keysIn ns b) → Q w (.ok keys)) := by
  refine (ends_perform (o := .keys ns b) nofun).trans ⟨fun h => ⟨fun hnone => ?_, fun hne keys hperm
    => ?_⟩, ?_⟩
  · exact h _ _ ⟨rfl, .inl ⟨hnone, rfl⟩⟩
  · exact h _ _ ⟨rfl, .inr (.inl ⟨keys, hne, hperm, rfl⟩)⟩
  · rintro ⟨hnone, hsome⟩ r w' ⟨rfl, ⟨hnil, rfl⟩ | ⟨keys, hne, hperm, rfl⟩ | ⟨hF, -⟩⟩
    · exact hnone hnil
    · exact hsome hne keys hperm
    · exact hF.elim

/-! ### Sound registries -/

/-- The definition may be read under the id, from the cache or from the store. -/
def World.ReadAs (w : World) (ns id : String) (wf : Workflow) : Prop :=
  w.cache id = some wf ∨ w.value ⟨ns, .wf, id⟩ = some wf

/-- **A sound registry**: the stored lists of versions are not empty, the workflow of a mapped
process has one, and what may be read as the newest version of the workflow launches the process. -/
structure World.RegistrySound (w : World) (ns : String) : Prop where
  versions : ∀ name (v : WorkflowVersions), w.value ⟨ns, .wfVersion, name⟩ = some v → v.version ≠ []
  mapped : ∀ processId name, w.value ⟨ns, .wfProcess, processId⟩ = some name →
    w.value ⟨ns, .wfVersion, name⟩ ≠ none
  specs : ∀ type (ids : List String), w.value ⟨ns, .wfTaskSpecVer, type⟩ = some ids → ids ≠ []
  launches : ∀ processId name newest wf, w.value ⟨ns, .wfProcess, processId⟩ = some name →
    (w.versions ns name).getLast? = some newest → w.ReadAs ns newest.id wf → wf.Launches processId
  /-- the ids of definitions were issued -/
  issued : ∀ id wf, w.ReadAs ns id wf → id ∈ w.ids
  newestIssued : ∀ name newest, (w.versions ns name).getLast? = some newest → newest.id ∈ w.ids
  distinct : ∀ name name' newest newest', (w.versions ns name).getLast? = some newest →
    (w.versions ns name').getLast? = some newest' → newest.id = newest'.id → name = name'

/-- The program never panics when no call fails. -/
def NeverPanics {α : Type} (w : World) (x : Act α) : Prop :=
  Ends (env noFault) False (fun _ _ => True) w x.run

/-- **The queries are safe**: for every argument they return a result or an error. -/
structure QueriesSafe (lib : Lib) (w : World) (ns : String) : Prop where
  launchWithParent : ∀ processId ID vrs headers parentpiID parentElID, NeverPanics w
    (launchWithParent lib ns processId ID vrs headers parentpiID parentElID)
  listWorkflows : NeverPanics w (listWorkflows ns)
  listExecutableProcesses : NeverPanics w (listExecutableProcesses lib ns)
  getExecutableWorkflowIds : NeverPanics w (getExecutableWorkflowIds ns)
  getTaskSpecUID : ∀ name, NeverPanics w (getTaskSpecUID ns name)
  listTaskSpecUIDs : ∀ deprecated, NeverPanics w (listTaskSpecUIDs ns deprecated)

/-! ### Programs that return -/

section Responds

variable {α β : Type} {x : Act α}

/-- The program returns a result or an error, wherever it is started. -/
def Responds (x : Act α) : Prop := ∀ w, NeverPanics w x

theorem Responds.seq {k : α → Act β} (hx : Responds x) (hk : ∀ a, Responds (k a)) :
    Responds (x >>= k) := by
  intro w
  refine ends_seq.2 ((hx w).mono ?_)
  rintro w' (e | a) -
  · trivial
  · exact hk a w'

theorem Responds.forM {k : β → Act Unit} {xs : List β} (h : ∀ x ∈ xs, Responds (k x)) :
    Responds (xs.forM k) := by
  induction xs with
  | nil => exact fun _ => ends_pure.2 trivial
  | cons x xs ih =>
    rw [forall_mem_cons] at h
    exact Responds.seq h.1 fun _ => ih h.2

theorem Responds.wrap {text : String} (hx : Responds x) : Responds (Act.wrap text x) :=
  fun w => ends_wrap.2 ((hx w).mono fun _ _ _ => trivial)

theorem Responds.attempt (hx : Responds x) : Responds (Act.attempt x) :=
  fun w => ends_attempt.2 ((hx w).mono fun _ _ _ => trivial)

theorem responds_ofExcept (r : Except Err α) : Responds (Act.ofExcept r) :=
  fun _ => ends_ret.2 trivial

theorem responds_ensureBucket (name : String) : Responds (ensureBucket name) :=
  fun _ => (ends_perform (o := .ensureBucket name) nofun).2 fun _ _ _ => trivial

theorem responds_getWorkflow (id : String) : Responds (getWorkflow ns id) := by
  intro w
  simp [NeverPanics, ends_getWorkflow, loadWorkflow, ends_loadFor ⟨_, .wf, _⟩]

theorem responds_updateObj {l : Loc} (msg : l.Val) (f : l.Val → Except Err l.Val) :
    Responds (updateObj l msg f) := by
  have hloop (w : World) : Ends (env noFault) False (fun _ _ => True) w (updateKV l msg f) := by
    refine ends_updateKV.2 ⟨fun _ => trivial, fun v _ => ?_, nofun⟩
    split
    · trivial
    · exact ⟨trivial, nofun⟩
  refine fun w => ends_updateObj.2 (Ends.mono (ends_updateObjMsg.2
    ⟨fun _ => ⟨hloop _, nofun⟩, fun _ => hloop w⟩) ?_)
  rintro w' ⟨_ | _, v⟩ - <;> trivial

theorem responds_publishWorkflowState {subject : Subject} (h : subject ≠ .jobUserTaskExecute)
    (state : WorkflowState) : Responds (publishWorkflowState ns subject state) :=
  fun _ => (ends_publishWorkflowState h).2 fun _ => ⟨trivial, nofun⟩

/-! ### The parts of a launch -/

theorem responds_createExecution (id name : String) : Responds (createExecution ns id name) := by
  refine Responds.seq (fun w => by simp [NeverPanics]) fun executionID => ?_
  refine Responds.seq (fun w => by simp [NeverPanics]) fun _ => ?_
  refine Responds.seq (responds_getWorkflow id).attempt fun found => ?_
  refine Responds.seq (Responds.wrap fun w => by simp [NeverPanics]) fun _ => ?_
  refine Responds.seq (responds_ofExcept found).wrap fun wf => ?_
  refine Responds.seq (Responds.forM fun m _ => (responds_ensureBucket _).wrap) fun _ => ?_
  exact fun _ => ends_pure.2 trivial

theorem responds_launchContext (parentpiID workflowName wfID : String) (wf : Workflow)
    (vrs headers : Bytes) :
    Responds (launchContext ns parentpiID workflowName wfID wf vrs headers) := by
  rw [launchContext]
  split
  · refine Responds.seq ?_ fun _ _ => ends_pure.2 trivial
    refine Responds.seq (responds_createExecution _ _).wrap fun e => ?_
    refine Responds.seq (responds_publishWorkflowState (by decide) _).attempt fun r => ?_
    cases r with
    | ok _ => exact fun _ => ends_pure.2 trivial
    | error err =>
      refine Responds.seq ?_ fun _ _ => ends_ret.2 trivial
      exact Responds.seq (responds_publishWorkflowState (by decide) _).attempt fun _ _ =>
        ends_pure.2 trivial
  · intro w
    simp [NeverPanics, getProcessInstance, getExecution, ends_loadFor ⟨_, .wfExecution, _⟩,
      ends_loadFor ⟨_, .wfProcessInstance, _⟩]

theorem responds_createProcessInstance (launch : Launch) (processId : String) :
    Responds (createProcessInstance ns launch processId) := by
  refine Responds.seq (fun w => by simp [NeverPanics]) fun id => ?_
  refine Responds.seq (fun w => by simp [NeverPanics]) fun _ => ?_
  refine Responds.seq (Responds.wrap fun w => ?_) fun wfi => ?_
  · simp [NeverPanics, getExecution, ends_loadFor ⟨_, .wfExecution, _⟩]
  refine Responds.seq (Responds.wrap fun w => by simp [NeverPanics]) fun _ => ?_
  exact Responds.seq (responds_updateObj _ _).wrap fun _ _ => ends_pure.2 trivial

theorem responds_launchStart (launch : Launch) (processId pi : String) (el : Element) :
    Responds (launchStart ns launch processId pi el) := by
  refine Responds.seq (fun w => by simp [NeverPanics]) fun id => ?_
  refine Responds.seq (responds_publishWorkflowState (by decide) _).wrap fun _ => ?_
  refine Responds.seq (Responds.wrap fun w => ?_) fun _ => ?_
  · simp [NeverPanics, recordHistoryProcessStart, recordHistory]
  exact Responds.seq (responds_publishWorkflowState (by decide) _).wrap fun _ _ =>
    ends_pure.2 trivial

theorem responds_launchProcess (launch : Launch) (pr : Process) :
    Responds (launchProcess lib ns launch pr) := by
  refine Responds.seq (responds_ofExcept _).wrap fun vals => ?_
  refine Responds.seq (Responds.wrap (Responds.forM fun el _ => (responds_ofExcept _).wrap))
    fun _ => ?_
  rw [Act.when]
  split
  · exact Responds.seq (responds_createProcessInstance _ _).wrap fun pi =>
      Responds.forM fun el _ => (responds_launchStart _ _ _ _).wrap
  · exact fun _ => ends_pure.2 trivial

end Responds

/-! ### The queries on a sound registry -/

variable {processId : String}

theorem ends_getWorkflowNameFor {Q : World → Except Err String → Prop} :
    Ends (env noFault) X Q w (getWorkflowNameFor ns processId).run ↔
      (w.value ⟨ns, .wfProcess, processId⟩ = none → Q w (.error (.wrap
        ("get workflow name for process " ++ processId) (.sentinel .processNotFound)))) ∧
        ∀ name : String, w.value ⟨ns, .wfProcess, processId⟩ = some name → Q w (.ok name) := by
  rw [getWorkflowNameFor, ends_seq, ends_nsKVs]
  simp only [ends_mapError]
  rw [@ends_load _ X w ⟨ns, .wfProcess, processId⟩]
  simp [mapError_ok, mapError_error]

variable {name : String} {Q : World → Except Err WorkflowVersions → Prop}

theorem ends_getWorkflowVersions :
    Ends (env noFault) X Q w (getWorkflowVersions ns name).run ↔
      (w.value ⟨ns, .wfVersion, name⟩ = none → Q w (.error
        (.wrap "get latest workflow version" (.sentinel .workflowNotFound)))) ∧
        ∀ v : WorkflowVersions, w.value ⟨ns, .wfVersion, name⟩ = some v → Q w (.ok v) := by
  refine (ends_loadFor ⟨ns, .wfVersion, name⟩).trans ?_
  simp only [noFault_iff, false_imp_iff, and_true]

theorem responds_checkProcessTaskDeprecation {wf : Workflow}
    (h : wf.Launches processId) : Responds (checkProcessTaskDeprecation ns wf processId) := by
  obtain ⟨-, pr, hpr, hversions⟩ := h
  rw [checkProcessTaskDeprecation, hpr]
  change Responds (pr.elements.forM (checkTaskDeprecation ns processId))
  refine Responds.forM fun el hel => ?_
  rw [checkTaskDeprecation, Act.when]
  split
  · rename_i hservice
    obtain ⟨version, hversion⟩ := Option.ne_none_iff_exists'.1 (hversions el hel hservice)
    intro w
    simp [NeverPanics, hversion, getTaskSpecByUID, ends_loadFrom ⟨_, .wfTaskSpec, _⟩]
  · exact fun _ => ends_pure.2 trivial

/-- **A launch returns** on a sound registry. -/
theorem neverPanics_launchWithParent (h : w.RegistrySound ns)
    (ID : TrackingID) (vrs headers : Bytes) (parentpiID parentElID : String) :
    NeverPanics w (launchWithParent lib ns processId ID vrs headers parentpiID parentElID) := by
  rw [NeverPanics, launchWithParent, ends_seq, engineErr, ends_wrap, ends_getWorkflowNameFor]
  refine ⟨fun _ => trivial, fun name hname => ends_seq.2 (ends_attempt.2 ?_)⟩
  refine ends_getWorkflowVersions.2 ⟨fun hnone => absurd hnone (h.mapped processId name hname),
    fun v hv => ?_⟩
  refine ends_seq.2 (ends_deref.2 ⟨nofun, ?_⟩)
  rintro v ⟨⟩
  refine ends_seq.2 (ends_when.2 ⟨fun _ => ?_, fun _ => ?_⟩)
  · simp [engineErr]
  refine ends_seq.2 (ends_deref.2 ⟨fun hnil => ?_, fun newest hnewest => ?_⟩)
  · exact h.versions name v hv (getLast?_eq_none_iff.1 hnil)
  have hversions : w.versions ns name = v.version := by rw [World.versions, hv, Option.getD_some]
  have hlaunch := fun wf => h.launches processId name newest wf hname (hversions ▸ hnewest)
  have hget : Ends (env noFault) False (fun _ r => ∀ wf, r = .ok wf → wf.Launches processId) w
      (getWorkflow ns newest.id).run := by
    refine ends_getWorkflow.2 ⟨fun wf hwf => ?_, (ends_loadFor ⟨ns, .wf, newest.id⟩).2
      ⟨fun _ => ⟨?_, ?_⟩, fun wf hwf => ⟨?_, ?_⟩, False.elim, False.elim⟩⟩
    · rintro _ ⟨⟩
      exact hlaunch wf (.inl hwf)
    · rintro _ ⟨⟩
    · rintro _ ⟨⟩
    · rintro _ ⟨⟩
      exact hlaunch wf (.inr hwf)
    · rintro _ ⟨⟩ _ ⟨⟩
      exact hlaunch wf (.inr hwf)
  refine ends_seq.2 (ends_wrap.2 (hget.mono ?_))
  rintro w' (e | wf) hwf
  · trivial
  have hwf := hwf wf rfl
  obtain ⟨participants, hparticipants⟩ := Option.ne_none_iff_exists'.1 hwf.1
  dsimp only [mapError_ok]
  rw [hparticipants]
  refine Responds.seq (responds_checkProcessTaskDeprecation hwf).wrap (fun _ => ?_) w'
  refine Responds.seq (responds_launchContext _ _ _ _ _ _) fun context => ?_
  refine Responds.seq (fun _ => ends_pure.2 trivial) fun participants => ?_
  refine Responds.seq (responds_ofExcept _) fun prs => ?_
  exact Responds.seq (Responds.forM fun pr _ => responds_launchProcess _ pr) fun _ _ =>
    ends_pure.2 trivial

/-- The newest id of a specification is there, unless there is none of the name. -/
theorem neverPanics_getTaskSpecUID_iff : NeverPanics w (getTaskSpecUID ns name) ↔
      ∀ ids : List String, w.value ⟨ns, .wfTaskSpecVer, name⟩ = some ids → ids ≠ [] := by
  simp [NeverPanics, getTaskSpecUID, getTaskSpecVersions, ends_loadFrom ⟨_, .wfTaskSpecVer, _⟩]

theorem ends_loadSpecVersions {text type : String} {Q : World → Except Err (List String) → Prop} :
    Ends (env noFault) X Q w (Act.wrap text (loadObj ⟨ns, .wfTaskSpecVer, type⟩)).run ↔
      (w.value ⟨ns, .wfTaskSpecVer, type⟩ = none → Q w (.error
        (.wrap text (loadNotFound ⟨ns, .wfTaskSpecVer, type⟩)))) ∧
        ∀ ids : List String, w.value ⟨ns, .wfTaskSpecVer, type⟩ = some ids → Q w (.ok ids) := by
  rw [ends_wrap, @ends_loadObj _ X w ⟨ns, .wfTaskSpecVer, type⟩]
  simp [mapError_ok, mapError_error]

/-- The specifications are listed if the lists of ids are not empty. -/
theorem neverPanics_latestTaskSpecs (deprecated : Bool) {vers : List String}
    (h : ∀ type, ∀ ids : List String, w.value ⟨ns, .wfTaskSpecVer, type⟩ = some ids → ids ≠ []) :
    NeverPanics w (latestTaskSpecs ns deprecated vers) := by
  suffices hends : Ends (env noFault) False (fun w' _ => w' = w) w
      (latestTaskSpecs ns deprecated vers).run from hends.mono fun _ _ _ => trivial
  induction vers with
  | nil => exact ends_pure.2 rfl
  | cons type rest ih =>
    rw [latestTaskSpecs, ends_seq, ends_loadSpecVersions]
    refine ⟨fun _ => rfl, fun ids hids => ?_⟩
    refine ends_seq.2 (ends_deref.2 ⟨fun hnone => ?_, fun latestVer _ => ?_⟩)
    · exact h type ids hids (List.getLast?_eq_none_iff.1 hnone)
    refine ends_seq.2 (ends_wrap.2 ((ends_loadFrom ⟨_, .wfTaskSpec, _⟩).2 ⟨fun _ => rfl,
      fun spec _ => ?_⟩))
    refine ends_seq.2 (ih.mono ?_)
    rintro w' (e | more) rfl
    · rfl
    · exact ends_pure.2 rfl

theorem ends_loadVersions :
    Ends (env noFault) X Q w (loadObj ⟨ns, .wfVersion, name⟩).run ↔
      (w.value ⟨ns, .wfVersion, name⟩ = none → Q w (.error (loadNotFound ⟨ns, .wfVersion, name⟩))) ∧
        ∀ v : WorkflowVersions, w.value ⟨ns, .wfVersion, name⟩ = some v → Q w (.ok v) := by
  refine (@ends_loadObj _ X w ⟨ns, .wfVersion, name⟩ Q).trans ?_
  simp only [noFault_iff, false_imp_iff, and_true]

/-- The keys are those of stored lists of versions. -/
def World.VersionKeys (w : World) (ns : String) (keys : List String) : Prop :=
  ∀ k ∈ keys, w.value ⟨ns, .wfVersion, k⟩ ≠ none

/-- The lists of versions under the keys are not empty. -/
def World.HaveVersions (w : World) (ns : String) (keys : List String) : Prop :=
  ∀ k ∈ keys, ∀ v : WorkflowVersions, w.value ⟨ns, .wfVersion, k⟩ = some v → v.version ≠ []

variable {keys : List String}

theorem ends_newestIds (h : w.HaveVersions ns keys) :
    Ends (env noFault) False (fun w' _ => w' = w) w (newestIds ns keys).run := by
  induction keys with
  | nil => exact ends_pure.2 rfl
  | cons k rest ih =>
    have ih := ih fun k' hk' => h k' (mem_cons_of_mem _ hk')
    rw [newestIds, ends_seq, ends_wrap, ends_loadVersions]
    refine ⟨fun _ => rfl, fun v hv => ?_⟩
    refine ends_seq.2 (ends_deref.2 ⟨fun hnone => ?_, fun newest _ => ends_seq.2 (ih.mono ?_)⟩)
    · exact h k mem_cons_self v hv (List.getLast?_eq_none_iff.1 hnone)
    rintro w' (e | more) rfl
    · rfl
    · exact ends_pure.2 rfl

/-- An empty list is found out. -/
theorem haveVersions_of_newestIds (hkeys : w.VersionKeys ns keys)
    (h : NeverPanics w (newestIds ns keys)) : w.HaveVersions ns keys := by
  induction keys with
  | nil => exact fun _ => nofun
  | cons k rest ih =>
    obtain ⟨v, hv⟩ := Option.ne_none_iff_exists'.1 (hkeys k mem_cons_self)
    rw [NeverPanics, newestIds, ends_seq, ends_wrap, ends_loadVersions] at h
    obtain ⟨hnone, hnewest⟩ := ends_deref.1 (ends_seq.1 (h.2 v hv))
    have hne : v.version ≠ [] := fun hnil => hnone (by rw [hnil]; rfl)
    have hrest : w.HaveVersions ns rest :=
      ih (fun k' hk' => hkeys k' (mem_cons_of_mem _ hk'))
        ((ends_seq.1 (hnewest _ (List.getLast?_eq_some_getLast hne))).mono fun _ _ _ => trivial)
    intro k' hk' v' hv'
    rcases mem_cons.1 hk' with rfl | hk'
    · obtain rfl : v = v' := Option.mem_unique hv hv'
      exact hne
    · exact hrest k' hk' v' hv'

/-- `ListWorkflows` over stored lists. -/
theorem ends_listVersions (hkeys : w.VersionKeys ns keys)
    (h : w.HaveVersions ns keys) (v : WorkflowVersions) :
    Ends (env noFault) False (fun w' _ => w' = w) w (listVersions ns v keys).run := by
  induction keys generalizing v with
  | nil => exact ends_pure.2 rfl
  | cons k rest ih =>
    have ih := ih (fun k' hk' => hkeys k' (mem_cons_of_mem _ hk'))
      fun k' hk' => h k' (mem_cons_of_mem _ hk')
    rw [listVersions, ends_seq, ends_attempt, ends_loadVersions]
    refine ⟨fun hnone => absurd hnone (hkeys k mem_cons_self), fun v hv => ?_⟩
    refine ends_seq.2 (ends_deref.2 ⟨fun hnone => ?_, fun newest _ => ends_seq.2 ((ih v).mono ?_)⟩)
    · exact h k mem_cons_self v hv (List.getLast?_eq_none_iff.1 hnone)
    rintro w' (e | more) rfl
    · rfl
    · exact ends_pure.2 rfl

/-- What is known of the names that are collected for a process. Nothing but the order of maps is
asked for. -/
def CollectsFor (lib : Lib) (F : Op → Prop) (X : Prop) (w : World)
    (S : Process → List String → Prop) : Prop :=
  ∀ p, Ends (env F) X (fun w' r => w' = w ∧ ∃ sent, r = .ok sent ∧
    ∀ names, sent = .ok names → S p names) w (startParameters lib [] [] p.elements).run

theorem collectsFor_any : CollectsFor lib F X w fun _ _ => True := by
  have hloop (els : List Element) : ∀ startParam parameter : List String,
      Ends (env F) X (fun w' r => w' = w ∧ ∃ sent, r = .ok sent) w
        (startParameters lib startParam parameter els).run := by
    induction els with
    | nil => exact fun _ _ => ends_pure.2 ⟨rfl, _, rfl⟩
    | cons el rest ih =>
      intro startParam parameter
      have hvariables : Ends (env F) X (fun w' r => w' = w ∧ ∃ found, r = .ok found) w
          (startEventVariables lib el).run := by
        rw [startEventVariables, ends_run_ite]
        refine ⟨fun _ => ?_, fun _ => ends_pure.2 ⟨rfl, _, rfl⟩⟩
        exact ends_seq.2 (ends_mapOrder.2 fun order _ => ends_pure.2 ⟨rfl, _, rfl⟩)
      refine ends_seq.2 (hvariables.mono ?_)
      rintro w' _ ⟨rfl, e | found, rfl⟩
      · exact ends_pure.2 ⟨rfl, _, rfl⟩
      · exact ends_seq.2 (ends_mapOrder.2 fun names _ => ih _ _)
  refine fun p => (hloop p.elements [] []).mono ?_
  rintro w' r ⟨hw, sent, hr⟩
  exact ⟨hw, sent, hr, fun _ _ => trivial⟩

/-- An item that was sent for a process, and what is known of its parameters. -/
def IsItemOf (S : Process → List String → Prop) (p : Process) (item : ListExecutableProcessesItem) :
    Prop :=
  item.processId = p.id ∧ S p item.parameter

variable {S : Process → List String → Prop}

theorem ends_listProcesses (hS : CollectsFor lib F X w S) (wf : Workflow) (keys : List String) :
    Ends (env F) X (fun w' r => w' = w ∧ ∃ items proceed, r = .ok (items, proceed) ∧
      ∀ item, .ok item ∈ items → ∃ key ∈ keys, IsItemOf S ((wf.process.lookup key).getD {}) item)
      w (listProcesses lib wf keys).run := by
  induction keys with
  | nil => exact ends_pure.2 ⟨rfl, [], true, rfl, by simp⟩
  | cons key rest ih =>
    refine ends_seq.2 ((hS _).mono ?_)
    rintro w' _ ⟨rfl, e | sent, rfl, hsent⟩
    · exact ends_pure.2 ⟨rfl, _, _, rfl, by simp⟩
    refine ends_seq.2 (ih.mono ?_)
    rintro w'' _ ⟨rfl, items, proceed, rfl, hitems⟩
    refine ends_pure.2 ⟨rfl, _, _, rfl, fun item hitem => ?_⟩
    rcases mem_cons.1 hitem with heq | hrest
    · cases heq
      exact ⟨key, mem_cons_self, rfl, hsent _ rfl⟩
    · obtain ⟨key', hkey', hof⟩ := hitems item hrest
      exact ⟨key', mem_cons_of_mem key hkey', hof⟩

theorem ends_loadOrSend {text : String} {l : Loc} {zero : l.Val}
    {Q : World → Except Err (Option (l.Val × List Err)) → Prop}
    (hnone : w.value l = none → Q w (.ok none))
    (hsome : ∀ v, w.value l = some v → Q w (.ok (some (v, []))))
    (hzero : F (.get l) → ∀ e, Q w (.ok (some (zero, [e])))) :
    Ends (env F) X Q w (loadOrSend text l zero).run := by
  rw [loadOrSend, ends_seq, ends_attempt, ends_loadObj]
  refine ⟨fun hnil => ends_pure.2 (hnone hnil), fun v hv => ends_pure.2 (hsome v hv),
    fun hF t => ?_⟩
  refine ends_run_ite.2 ⟨fun hfound => ?_, fun _ => ends_pure.2 (hzero hF _)⟩
  simp at hfound

/-- The newest version of a stored workflow. -/
def World.Newest (w : World) (ns : String) (wf : Workflow) : Prop :=
  ∃ k, ∃ wfv : WorkflowVersions, ∃ latest, w.value ⟨ns, .wfVersion, k⟩ = some wfv ∧
    wfv.version.getLast? = some latest ∧ w.value ⟨ns, .wf, latest.id⟩ = some wf

/-- The process is one of a stored workflow. -/
def World.Stores (w : World) (ns : String) (p : Process) : Prop :=
  ∃ wf, w.Newest ns wf ∧ ∃ key, wf.process.lookup key = some p

/-- Every item is one of a process that is stored. -/
def ItemsStored (S : Process → List String → Prop) (w : World) (ns : String)
    (items : List (Except Err ListExecutableProcessesItem)) : Prop :=
  ∀ item, .ok item ∈ items → ∃ p, w.Stores ns p ∧ IsItemOf S p item

theorem ItemsStored.append {items items' : List (Except Err ListExecutableProcessesItem)}
    (h : ItemsStored S w ns items) (h' : ItemsStored S w ns items') :
    ItemsStored S w ns (items ++ items') := by
  intro item hitem
  rcases mem_append.1 hitem with hitem | hitem
  · exact h item hitem
  · exact h' item hitem

theorem itemsStored_errors (errs : List Err) : ItemsStored S w ns (errs.map .error) := by
  intro item hitem
  obtain ⟨e, -, he⟩ := mem_map.1 hitem
  cases he

/-- **What `ListExecutableProcesses` sends.** It panics at an empty list of versions, or at one that
could not be read. -/
theorem ends_listExecutable (hS : CollectsFor lib F X w S)
    (h : X ∨ (∀ o, ¬ F o) ∧ w.HaveVersions ns keys) :
    Ends (env F) X (fun w' r => w' = w ∧ ∀ items, r = .ok items → ItemsStored S w ns items) w
      (listExecutable lib ns keys).run := by
  induction keys with
  | nil =>
    refine ends_pure.2 ⟨rfl, ?_⟩
    rintro _ ⟨⟩ item hitem
    cases hitem
  | cons k rest ih =>
    have ih := ih (h.imp_right fun h => ⟨h.1, fun k' hk' => h.2 k' (mem_cons_of_mem _ hk')⟩)
    have hthen {first : List (Except Err ListExecutableProcessesItem)}
        (hfirst : ItemsStored S w ns first) :
        Ends (env F) X (fun w' r => w' = w ∧ ∀ items, r = .ok items → ItemsStored S w ns items)
          w (listExecutable lib ns rest >>= fun more => pure (first ++ more)).run := by
      refine ends_seq.2 (ih.mono ?_)
      rintro w' (e | more) ⟨rfl, hmore⟩
      · exact ⟨rfl, by simp⟩
      · refine ends_pure.2 ⟨rfl, ?_⟩
        rintro _ ⟨⟩
        exact hfirst.append (hmore more rfl)
    -- what is sent of a workflow that was read, and after it
    have hworkflow (wf : Workflow) (sent : List Err)
        (hstored : ∀ key p, wf.process.lookup key = some p → w.Stores ns p)
        {k : List (Except Err ListExecutableProcessesItem) × Bool → Act (List _)}
        (htrue : ∀ items, k (items, true) = listExecutable lib ns rest >>= fun more =>
          pure (sent.map .error ++ items ++ more))
        (hfalse : ∀ items, k (items, false) = pure (sent.map .error ++ items ++ [])) :
        Ends (env F) X (fun w' r => w' = w ∧ ∀ items, r = .ok items → ItemsStored S w ns items)
          w (mapOrder wf.process.keys >>= fun order => listProcesses lib wf order >>= k).run := by
      refine ends_seq.2 (ends_mapOrder.2 fun order hperm => ?_)
      refine ends_seq.2 ((ends_listProcesses hS wf order).mono ?_)
      rintro w' _ ⟨rfl, items, proceed, rfl, hitems⟩
      have hof : ItemsStored S w' ns (sent.map .error ++ items) := by
        refine (itemsStored_errors sent).append fun item hitem => ?_
        obtain ⟨key, hkey, hof⟩ := hitems item hitem
        obtain ⟨p, hp⟩ := Option.isSome_iff_exists.1
          (AList.lookup_isSome.2 (AList.mem_keys.1 (hperm.mem_iff.1 hkey)))
        rw [hp, Option.getD_some] at hof
        exact ⟨p, hstored key p hp, hof⟩
      dsimp only
      cases proceed with
      | true =>
        rw [htrue]
        exact hthen hof
      | false =>
        rw [hfalse]
        refine ends_pure.2 ⟨rfl, ?_⟩
        rintro _ ⟨⟩
        rwa [append_nil]
    rw [listExecutable, ends_seq]
    refine ends_loadOrSend (fun _ => ih) (fun wfv hwfv => ?_) fun hF e => ?_
    · refine ends_seq.2 (ends_deref.2 ⟨fun hnone => ?_, fun latest hlatest => ends_seq.2 ?_⟩)
      · exact h.resolve_right fun h =>
          h.2 k mem_cons_self wfv hwfv (List.getLast?_eq_none_iff.1 hnone)
      refine ends_loadOrSend (fun _ => hthen (itemsStored_errors []))
        (fun wf hwf => hworkflow wf _ ?_ (fun _ => rfl) fun _ => rfl)
        fun _ e => hworkflow {} _ (by simp) (fun _ => rfl) fun _ => rfl
      exact fun key p hp => ⟨wf, ⟨k, wfv, latest, hwfv, hlatest, hwf⟩, key, hp⟩
    · exact ends_seq.2 (ends_deref.2 ⟨fun _ => h.resolve_right fun h => h.1 _ hF, by simp⟩)

/-- **The queries are safe on a sound registry.** -/
theorem World.RegistrySound.queriesSafe (h : w.RegistrySound ns) : QueriesSafe lib w ns := by
  have hkeys {keys : List String} (hperm : keys.Perm (w.keysIn ns .wfVersion)) :
      w.VersionKeys ns keys := fun k hk => w.value_of_mem_keysIn (hperm.mem_iff.1 hk)
  have hversions {keys : List String} : w.HaveVersions ns keys := fun k _ v hv =>
    h.versions k v hv
  refine ⟨fun processId => neverPanics_launchWithParent h, ?_, ?_, ?_, fun name => ?_,
    fun deprecated => ?_⟩
  · rw [NeverPanics, listWorkflows, ends_seq, ends_attempt, ends_nsKVs]
    refine ⟨ends_seq.2 (ends_attempt.2 (ends_kvKeys.2 ⟨fun _ => ?_, fun _ keys hperm => ?_⟩)),
      nofun⟩
    · exact ends_pure.2 trivial
    · exact (ends_listVersions (hkeys hperm) hversions {}).mono fun _ _ _ => trivial
  · rw [NeverPanics, listExecutableProcesses, ends_seq, ends_attempt, ends_nsKVs]
    refine ⟨ends_seq.2 (ends_attempt.2 (ends_wrap.2 (ends_kvKeys.2
      ⟨fun _ => ?_, fun _ keys hperm => ?_⟩))), nofun⟩
    · exact ends_pure.2 trivial
    · exact (ends_listExecutable collectsFor_any (.inr ⟨fun _ => id, hversions⟩)).mono fun _ _ _ =>
        trivial
  · rw [NeverPanics, getExecutableWorkflowIds, ends_seq, ends_wrap, ends_kvsFor]
    refine ⟨ends_seq.2 (ends_wrap.2 (ends_kvKeys.2 ⟨fun _ => ?_, fun _ keys hperm => ?_⟩)), nofun⟩
    · trivial
    · exact (ends_newestIds hversions).mono fun _ _ _ => trivial
  · exact neverPanics_getTaskSpecUID_iff.2 fun ids hids => h.specs name ids hids
  · rw [NeverPanics, listTaskSpecUIDs, ends_seq, ends_nsKVs]
    refine ⟨ends_seq.2 (ends_wrap.2 (ends_kvKeys.2 ⟨fun _ => ?_, fun _ keys hperm => ?_⟩)), nofun⟩
    · trivial
    · exact neverPanics_latestTaskSpecs deprecated h.specs

/-- Safe queries take it that no stored list of versions is empty. -/
theorem versions_of_queriesSafe (h : QueriesSafe lib w ns) (hlisted : w.Listed)
    {v : WorkflowVersions} (hv : w.value ⟨ns, .wfVersion, name⟩ = some v) : v.version ≠ [] := by
  have hmem : name ∈ w.keysIn ns .wfVersion := hlisted.mem_keysIn (by simp [hv])
  have hends := h.getExecutableWorkflowIds
  rw [NeverPanics, getExecutableWorkflowIds, ends_seq, ends_wrap, ends_kvsFor] at hends
  have hnewest := (ends_kvKeys.1 (ends_wrap.1 (ends_seq.1 hends.1))).2 (ne_nil_of_mem hmem) _
    (.refl _)
  exact haveVersions_of_newestIds (fun k hk => w.value_of_mem_keysIn hk) hnewest name hmem v hv

end SharWorkflow
