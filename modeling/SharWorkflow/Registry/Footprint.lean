import SharWorkflow.Engine.Keeps
import SharWorkflow.Engine.Queries
import SharWorkflow.Nats.Footprint
import SharWorkflow.Registry.Loading

/-!
# The footprint of a load

Which locations a load of a definition reads, and what it writes. Apart from the mappings of its
processes, which are read at its beginning and written while its service tasks are checked, a load
writes the list of versions of its own workflow, definitions, message types and client tasks.
-/

namespace SharWorkflow

open Concurrent Discipline

/-! ### Definitions that are launched -/

/-- A service task has a version. -/
def Element.HasVersion (el : Element) : Prop := el.type = .serviceTask → el.version ≠ none

/-- What a launch of a process takes for granted of the definition. -/
def Workflow.Launches (wf : Workflow) (processId : String) : Prop :=
  wf.collaboration ≠ none ∧
    ∃ pr, wf.process.lookup processId = some pr ∧ ∀ el ∈ pr.elements, el.HasVersion

/-- The definition `wf'` is `wf` with the service tasks of the processes in `done` checked. -/
structure Tasked (wf : Workflow) (done : List String) (wf' : Workflow) : Prop where
  name : wf'.name = wf.name
  collaboration : wf'.collaboration = wf.collaboration
  keys : wf'.process.keys = wf.process.keys
  ids : ∀ key, ((wf'.process.lookup key).getD {}).id = ((wf.process.lookup key).getD {}).id
  versions : ∀ key ∈ done, ∀ pr, wf'.process.lookup key = some pr → ∀ el ∈ pr.elements,
      el.HasVersion

variable {lib : Lib} {getHash : Workflow → Bytes} {ns name : String} {wf wf' : Workflow}

theorem Tasked.refl (wf : Workflow) : Tasked wf [] wf :=
  ⟨rfl, rfl, rfl, fun _ => rfl, nofun⟩

theorem Tasked.next {done : List String} (h : Tasked wf done wf') (key : String)
    {els : List Element} (hels : ∀ el ∈ els, el.HasVersion) : Tasked wf (key :: done) { wf' with
      process := wf'.process.replace key { (wf'.process.lookup key).getD {} with elements := els } }
    where
  name := h.name
  collaboration := h.collaboration
  keys := by rw [AList.keys_replace, h.keys]
  ids key' := by
    rw [← h.ids key']
    by_cases heq : key' = key
    · subst heq
      by_cases hkey : key' ∈ wf'.process.keys
      · rw [GoMap.lookup_replace_self _ _ hkey, Option.getD_some]
      · rw [AList.lookup_eq_none.2 fun hmem => hkey (AList.mem_keys.1 hmem),
          AList.lookup_eq_none.2 fun hmem => hkey (AList.mem_keys.1 (AList.mem_replace.1 hmem))]
    · rw [GoMap.lookup_replace_of_ne _ _ heq]
  versions key' hkey' pr hpr := by
    by_cases heq : key' = key
    · subst heq
      have hmem : key' ∈ wf'.process.keys :=
        AList.mem_keys.1 (AList.mem_replace.1 (AList.lookup_isSome.1
        (Option.isSome_of_eq_some hpr)))
      cases (GoMap.lookup_replace_self _ _ hmem).symm.trans hpr
      exact hels
    · rw [GoMap.lookup_replace_of_ne _ _ heq] at hpr
      exact h.versions key' ((List.mem_cons.1 hkey').resolve_left heq) pr hpr

/-- **A definition whose service tasks are all checked launches its processes.** -/
theorem Tasked.launches {order : List String} (h : Tasked wf order wf')
    (horder : order.Perm wf.process.keys) (hcollaboration : wf.collaboration ≠ none) :
    ∀ key ∈ wf.process.keys, wf'.Launches key := by
  intro key hkey
  obtain ⟨pr, hpr⟩ := Option.isSome_iff_exists.1
    (AList.lookup_isSome.2 (AList.mem_keys.2 (h.keys.symm ▸ hkey)))
  exact ⟨h.collaboration ▸ hcollaboration, pr, hpr, h.versions key (horder.mem_iff.2 hkey) pr hpr⟩

/-! ### What a load reads and writes -/

/-- The footprint covers what a load of the workflow `name` does apart from the mappings. The ids of
its definitions are in `own`, and the definitions in `good`. An empty list of versions is written
only where none is stored, and a version is added to a list that was read, once its definition is
stored. -/
structure LoadReach (T : Footprint) (ns name : String) (own : String → Prop)
    (good : Workflow → Prop) : Prop where
  reads : ∀ l : Loc, l.ns = ns → l.bucket ≠ .wfProcess → T.reads l
  issued : ∀ id, T.answers .newId id → own id
  first : T.writes ⟨ns, .wfVersion, name⟩ (some ({} : WorkflowVersions)) ∨
    ∀ r, T.answers (.get ⟨ns, .wfVersion, name⟩) r → isAbsent r = false
  /-- a list that names the definition is written as it was read, and its newest id is used from
  then on -/
  found : ∀ (entry : Entry WorkflowVersions) (newest : WorkflowVersion),
    T.answers (.get ⟨ns, .wfVersion, name⟩) (.ok entry) →
    entry.value.version.getLast? = some newest →
    T.writes ⟨ns, .wfVersion, name⟩ (some entry.value) ∧ own newest.id
  added : ∀ (entry : Entry WorkflowVersions) (id : String) (wf : Workflow) (hash : Bytes), own id →
    T.answers (.get ⟨ns, .wfVersion, name⟩) (.ok entry) →
    T.answers (.put ⟨ns, .wf, id⟩ wf) (.ok ()) →
    T.writes ⟨ns, .wfVersion, name⟩ (some { entry.value with
      version := entry.value.version ++ [⟨id, hash, .ofNat entry.value.version.length + 1⟩] })
  definition : ∀ id wf, own id → good wf → T.writes ⟨ns, .wf, id⟩ (some wf)
  messageType : ∀ m receivers, T.writes ⟨ns, .wfMsgTypes, m⟩ (some receivers)
  clientTask : ∀ m id, T.writes ⟨ns, .wfClientTask, m⟩ (some id)

/-- All of this is outside the bucket of the mappings. -/
theorem loadReach_avoiding (ns name : String) :
    LoadReach (.avoiding .wfProcess) ns name (fun _ => True) fun _ => True :=
  ⟨fun _ _ h => h, fun _ _ => trivial, .inl nofun, fun _ _ _ _ => ⟨nofun, trivial⟩,
    fun _ _ _ _ _ _ _ => nofun, fun _ _ _ _ => nofun, fun _ _ => nofun, fun _ _ => nofun⟩

variable {T : Footprint} {own : String → Prop} {good : Workflow → Prop}

section

variable (hreads : ∀ l : Loc, l.ns = ns → l.bucket ≠ .wfProcess → T.reads l)
include hreads

theorem touches_validateUniqueMessageNames : Touches T (validateUniqueMessageNames ns wf) := by
  have hforeign (m : Element) : Touches T (foreignMessage ns wf.name m) :=
    (yields_loadObj (hreads ⟨ns, .wfMsgTypes, _⟩ rfl nofun)).attempt.andThen fun r => by
      cases r <;> exact yields_pure trivial
  refine (yields_nsKVs trivial).andThen fun _ => (Yields.mapM hforeign).andThen fun _ =>
    (yields_mapOrder trivial).andThen fun _ => ?_
  split
  · exact yields_pure trivial
  · exact yields_throw _

theorem touches_taskUID (j : Element) : Touches T (taskUID ns j) := by
  have hversions : Yields T.discipline (Finds T.discipline ⟨ns, .wfTaskSpecVer, j.execute⟩)
      (getTaskSpecVersions ns j.execute) := yields_loadFrom trivial (hreads _ rfl nofun)
  refine Yields.andThen (Yields.attempt (hversions.wrap.andThen fun _ =>
    (yields_deref trivial _).any)) ?_
  rintro (e | id)
  · dsimp only
    split
    · exact yields_throw _
    · exact yields_pure trivial
  · exact yields_pure trivial

omit hreads in
theorem version_of_checkTask {errors : List Error} {spec : TaskSpec} {j j' : Element}
    {order : List String} (h : checkTask lib errors spec j order = some (.ok j')) :
    j'.version = j.version := by
  rw [checkTask] at h
  split at h
  · cases h
  · simp only [Option.bind_eq_bind, Option.bind_eq_some_iff] at h
    obtain ⟨retry, -, retry', -, exceeded, -, h⟩ := h
    split at h
    · cases h
    · cases h
      rfl

/-- A service task has a version once it is checked. -/
theorem yields_processElement (errors : List Error) (j : Element) :
    Yields T.discipline Element.HasVersion
      (processElement lib ns (ensureServiceTaskConsumer ns) errors j) := by
  have hspec (uid : String) : Yields T.discipline (Finds T.discipline ⟨ns, .wfTaskSpec, uid⟩)
      (getTaskSpecByUID ns uid) := yields_loadFrom trivial (hreads _ rfl nofun)
  rw [processElement]
  split
  · refine (touches_taskUID hreads j).andThen fun id => ?_
    refine (hspec id).wrap.andThen fun spec => (yields_mapOrder trivial).andThen fun order => ?_
    refine (yields_deref trivial _).seq fun checked hchecked => ?_
    refine (yields_ofExcept checked).seq fun j' hj' => ?_
    refine (yields_createConsumer trivial).wrap.wrap.andThen fun _ => ?_
    have hversion : j'.version = some id := version_of_checkTask (hj' ▸ hchecked)
    exact yields_pure fun _ => by simp [hversion]
  · rename_i htype
    exact yields_pure fun hservice => absurd hservice htype

theorem yields_processElements (errors : List Error) (els : List Element) :
    Yields T.discipline (fun els' => ∀ el ∈ els', el.HasVersion)
      (processElements lib ns (ensureServiceTaskConsumer ns) errors els) := by
  induction els with
  | nil => exact yields_pure fun _ h => absurd h List.not_mem_nil
  | cons j rest ih =>
    refine (yields_processElement hreads errors j).seq fun j' hj' => ih.seq fun rest' hrest' => ?_
    exact yields_pure (List.forall_mem_cons.2 ⟨hj', hrest'⟩)

end

/-- The list that is to be stored: the one that was found, or the same with the version added. -/
theorem ensures_addVersion (h : LoadReach T ns name own good) (hgood : good wf) (hash : Bytes)
    (entry : Entry WorkflowVersions)
    (hentry : T.answers (.get ⟨ns, .wfVersion, name⟩) (.ok entry)) (s : Stored) (hs : own s.wfID) :
    T.discipline.Ensures (fun r => own r.2.wfID ∧ ∀ uv : WorkflowVersions, r.1 = .ok uv →
      T.writes ⟨ns, .wfVersion, name⟩ (some uv)) (addVersion ns wf hash entry.value s) := by
  have hnew : T.discipline.Ensures (fun r => own r.2.wfID ∧ ∀ uv : WorkflowVersions,
      r.1 = .ok uv → T.writes ⟨ns, .wfVersion, name⟩ (some uv))
      (addNewVersion ns wf hash entry.value s) := by
    refine Ensures.bind (yields_saveObj (E := fun _ => True) (h.definition _ _ hs hgood))
      fun r hr => ?_
    cases r with
    | error e => exact ensures_ret ⟨hs, nofun⟩
    | ok u =>
      refine ensures_ret ⟨hs, ?_⟩
      rintro uv ⟨⟩
      exact h.added entry _ wf hash hs hentry hr
  rw [addVersion]
  split
  · exact hnew
  · rename_i newest hnewest
    obtain ⟨hwrites, hown⟩ := h.found entry newest hentry hnewest
    split
    · refine ensures_ret ⟨hown, ?_⟩
      rintro uv ⟨⟩
      exact hwrites
    · exact hnew

variable {S : Type} {J : S → Prop} {s : S} {l : Loc} {msg : l.Val}
  {updateFn : l.Val → S → P (Except Err l.Val × S)}

section

variable (hread : T.reads l) (hs : J s)
  (h : ∀ entry s, J s → T.answers (.get l) (.ok entry) → T.discipline.Ensures
    (fun r => J r.2 ∧ ∀ uv, r.1 = .ok uv → T.writes l (some uv)) (updateFn entry.value s))
include hread hs h

/-- **The loop of an update**, whose function keeps `J` of its state. -/
theorem ensures_updateKVWith :
    T.discipline.Ensures (fun _ => True) (updateKVWith l s updateFn) := by
  refine Ensures.loop (P := J) (M := fun _ => True) hs (fun s hs => ?_) fun _ _ =>
    ensures_ret trivial
  refine Ensures.bind (yields_kvGet (E := fun _ => True) hread) ?_
  rintro (e | entry) hentry
  · exact ensures_ret trivial
  refine (h entry s hs hentry).bind ?_
  rintro ⟨e | uv, s⟩ ⟨hs, hwrite⟩
  · exact ensures_ret trivial
  refine Ensures.bind (yields_kvUpdate (E := fun _ => True) (hwrite uv rfl)) ?_
  rintro (e | _) -
  · dsimp only
    split
    · exact ensures_ret hs
    · exact ensures_ret trivial
  · exact ensures_ret trivial

theorem ensures_updateObjWith
    (hfirst : T.writes l (some msg) ∨ ∀ r, T.answers (.get l) r → isAbsent r = false) :
    T.discipline.Ensures (fun _ => True) (updateObjWith l msg s updateFn) := by
  have hloop := ensures_updateKVWith hread hs h
  refine ensures_firstSave (E := fun _ => True) hread hfirst ?_ hloop
  rintro (e | _) -
  · exact ensures_ret trivial
  · exact hloop

end

/-- A specification is put: its list of versions is written with the new id, once the specification
is stored. -/
theorem touches_putTaskSpec {createUID : TaskSpec → Except Err String} {type : String}
    {spec : TaskSpec} (hspec : ∀ uid, T.writes ⟨ns, .wfTaskSpec, uid⟩ (some spec))
    (hread : T.reads ⟨ns, .wfTaskSpecVer, type⟩)
    (hfirst : T.writes ⟨ns, .wfTaskSpecVer, type⟩ (some ([] : List String)) ∨
      ∀ r, T.answers (.get ⟨ns, .wfTaskSpecVer, type⟩) r → isAbsent r = false)
    (hlist : ∀ uid (entry : Entry (List String)),
      T.answers (.put ⟨ns, .wfTaskSpec, uid⟩ spec) (.ok ()) →
      T.answers (.get ⟨ns, .wfTaskSpecVer, type⟩) (.ok entry) →
      T.writes ⟨ns, .wfTaskSpecVer, type⟩ (some (entry.value ++ [uid]))) :
    Touches T (putTaskSpec createUID ns type spec) := by
  refine (yields_nsKVs trivial).andThen fun _ => (yields_ofExcept _).wrap.andThen fun uid => ?_
  refine (yields_createConsumer trivial).wrap.wrap.andThen fun _ => ?_
  refine Yields.seq (yields_saveObj (hspec uid)).wrap fun _ hsaved => ?_
  have hupdate : T.discipline.Ensures (fun _ => True) (updateObjWith ⟨ns, .wfTaskSpecVer, type⟩
      ([] : List String) () (addTaskVersion ns uid spec)) := by
    refine ensures_updateObjWith (J := fun _ => True) hread trivial (fun entry s _ hentry =>
      ?_) hfirst
    refine Ensures.bind (yields_publishMsg (E := fun _ => True) trivial) fun r _ => ?_
    cases r with
    | error e => exact ensures_ret ⟨trivial, nofun⟩
    | ok u =>
      refine ensures_ret ⟨trivial, ?_⟩
      rintro uv ⟨⟩
      exact hlist uid entry hsaved hentry
  exact (yields_liftM hupdate).andThen fun _ => (yields_ofExcept _).wrap.andThen fun _ =>
    yields_pure trivial

theorem touches_storeVersion (h : LoadReach T ns wf.name own good) (hgood : good wf) {wfID : String}
    (hwfID : own wfID) : Touches T (storeVersion getHash ns wf wfID) := by
  have hupdate := ensures_updateObjWith (l := ⟨ns, .wfVersion, wf.name⟩)
    (s := { wfID := wfID })
    (J := fun s : Stored => own s.wfID) (h.reads _ rfl nofun) hwfID
    (fun entry s hs hentry => ensures_addVersion h hgood (getHash wf) entry hentry s hs) h.first
  exact (yields_liftM hupdate).andThen fun _ => (yields_ofExcept _).mapError.andThen fun _ =>
    yields_pure trivial

theorem touches_announceVersion (h : LoadReach T ns name own good) (wfID : String) :
    Touches T (announceVersion ns wf wfID) := by
  have hmessage (m : Element) : Touches T (ensureMessageBucket ns wf m) :=
    (yields_kvPut (h.messageType _ _)).wrap.mapError.andThen fun _ =>
      (yields_newId trivial).andThen fun _ =>
        (yields_kvPut (h.clientTask _ _)).wrap.wrap.andThen fun _ =>
          (yields_createConsumer trivial).wrap
  have htimers (key : String) : Touches T (startTimers ns wf wfID key) :=
    Yields.wrap <| Yields.forM fun el _ => Yields.wrap <| (yields_now trivial).andThen fun _ =>
      Yields.wrap_bind (yields_publishWorkflowState trivial (fun _ => trivial) nofun) fun _ =>
        yields_pure trivial
  have hbuckets : Touches T (ensureMessageBuckets ns wf) :=
    (yields_nsKVs trivial).andThen fun _ => Yields.forM fun m _ => hmessage m
  exact hbuckets.wrap.andThen fun _ => (yields_mapOrder trivial).andThen fun _ =>
    (Yields.forM fun key _ => htimers key).andThen fun _ => yields_pure trivial

/-! ### The whole load -/

theorem touches_validateUniqueProcessIdFor (h : ∀ id, T.reads ⟨ns, .wfProcess, id⟩) :
    Touches T (validateUniqueProcessIdFor ns wf) := by
  have hforeign (key : String) : Touches T (foreignProcess ns wf.name key) := by
    refine (yields_kvGet (h key)).attempt.andThen ?_
    rintro (e | entry)
    · dsimp only
      split
      · exact yields_pure trivial
      · exact (yields_deref trivial none).any
    · exact yields_pure trivial
  refine (yields_nsKVs trivial).andThen fun _ => (yields_mapOrder trivial).andThen fun _ =>
    (Yields.mapM hforeign).andThen fun found => ?_
  dsimp only
  split
  · exact yields_pure trivial
  · exact (yields_mapOrder trivial).andThen fun _ => yields_throw _

/-- The processes are mapped to the workflow as they come, each after its service tasks were
checked. -/
theorem yields_processServiceTasks (h : LoadReach T ns wf.name own good)
    (hmapping : ∀ order : List String, T.answers (.mapOrder wf.process.keys) order → ∀ key ∈ order,
      T.writes (mappingLoc ns wf key) (some wf.name)) :
    Yields T.discipline (fun wf' => ∃ order : List String,
        T.answers (.mapOrder wf.process.keys) order ∧ Tasked wf order wf')
      (processServiceTasks lib ns (ensureServiceTaskConsumer ns) (createWorkflowProcessMapping ns)
        wf) := by
  have hfold (rest : List String) : ∀ done (wf' : Workflow), Tasked wf done wf' →
      (∀ key ∈ rest, T.writes (mappingLoc ns wf key) (some wf.name)) →
      Yields T.discipline (Tasked wf (rest.reverse ++ done)) (rest.foldlM (processTasks lib ns
        (ensureServiceTaskConsumer ns) (createWorkflowProcessMapping ns)) wf') := by
    induction rest with
    | nil => exact fun done wf' htasked _ => yields_pure htasked
    | cons key rest ih =>
      intro done wf' htasked hrest
      have hwrite : T.writes ⟨ns, .wfProcess, ((wf'.process.lookup key).getD {}).id⟩
          (some wf'.name) := by
        rw [htasked.ids, htasked.name]
        exact hrest key List.mem_cons_self
      rw [List.foldlM_cons, List.reverse_cons, List.append_assoc]
      refine Yields.seq (Q := Tasked wf (key :: done)) ?_ fun wf'' htasked'' =>
        ih _ wf'' htasked'' fun key' hkey' => hrest key' (List.mem_cons_of_mem _ hkey')
      refine (yields_processElements h.reads _ _).seq fun els hels => ?_
      refine (yields_kvPut hwrite).wrap.wrap.andThen fun _ => ?_
      exact yields_pure (htasked.next key hels)
  refine (yields_mapOrder trivial).seq fun order horder => ?_
  refine (hfold order [] wf (.refl wf) (hmapping order horder)).mono fun wf' htasked => ?_
  obtain ⟨hname, hcollaboration, hkeys, hids, hversions⟩ := htasked
  rw [List.append_nil] at hversions
  exact ⟨order, horder, hname, hcollaboration, hkeys, hids,
    fun key hkey => hversions key (List.mem_reverse.2 hkey)⟩

/-- **The footprint of a load.** -/
theorem touches_loadWorkflowDefinition (h : LoadReach T ns wf.name own good)
    (hreads : ∀ id, T.reads ⟨ns, .wfProcess, id⟩)
    (hmapping : ∀ order : List String, T.answers (.mapOrder wf.process.keys) order → ∀ key ∈ order,
      T.writes (mappingLoc ns wf key) (some wf.name))
    (hgood : ∀ (order : List String) wf', T.answers (.mapOrder wf.process.keys) order →
      Tasked wf order wf' → good wf') : Touches T (loadWorkflowDefinition lib getHash ns wf) := by
  refine Yields.wrap ?_
  refine (touches_validateUniqueProcessIdFor hreads).wrap.andThen fun _ => ?_
  refine (touches_validateUniqueMessageNames h.reads).wrap.andThen fun _ => ?_
  refine (yields_nsKVs trivial).andThen fun _ => (yields_newId trivial).seq fun wfID hwfID => ?_
  refine (yields_processServiceTasks h hmapping).seq ?_
  rintro wf' ⟨order, horder, htasked⟩
  have h' : LoadReach T ns wf'.name own good := htasked.name.symm ▸ h
  refine (touches_storeVersion h' (hgood order wf' horder htasked) (h.issued _ hwfID)).andThen
    fun stored => ?_
  split
  · exact touches_announceVersion h' stored.wfID
  · exact yields_pure trivial

end SharWorkflow
