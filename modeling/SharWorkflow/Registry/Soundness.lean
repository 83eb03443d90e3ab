import SharWorkflow.Registry.Queries
import SharWorkflow.Registry.Reload

/-!
# Operations that keep the registry sound

Not every operation on the registry keeps it sound. A workflow that is switched before it is loaded
gets an empty list of versions (`switch_breaks_queries`); a first load that is turned down over one
of its service tasks, or of which a call fails, may have mapped processes already; and a version
without one of the processes of an earlier one leaves that process mapped to a definition that does
not have it. In every sequence of operations without these the queries are safe
(`registry_queries_safe`).

What an operation does to the registry is seen from its footprint, whichever of its calls fail.

* `SoundWrite`: what a switch or a new specification may write.
* `LoadWrite`: what a load may write. The ids of its definitions are its own (`OwnId`).
* `RegistryOp.Careful`: the operations that keep the registry sound (`RegistryOp.Careful.sound`).
* `CarefulRun`: sequences of such operations.
-/

namespace SharWorkflow

open Concurrent List World

variable {lib : Lib} {getHash : Workflow → Bytes} {ns : String} {w w' : World} {X : Prop}
  {F : Op → Prop} {wf : Workflow}

/-! ### Switches and specifications -/

/-- The value keeps the registry sound: the versions of a workflow stay, and a list of
specifications is not empty. -/
def SoundWrite (w : World) : (l : Loc) → Option l.Val → Prop
  | ⟨ns, .wfVersion, name⟩, v => w.value ⟨ns, .wfVersion, name⟩ ≠ none ∧
      ∃ u : WorkflowVersions, v = some u ∧ u.version = w.versions ns name
  | ⟨_, .wfTaskSpecVer, _⟩, v => ∃ ids : List String, v = some ids ∧ ids ≠ []
  | ⟨_, .wfTaskSpec, _⟩, _ => True
  | _, _ => False

/-- **Writes that keep a registry sound**, where the list `list` is known to be stored. -/
def soundFootprint (w : World) (list : Loc) : Footprint where
  reads _ := True
  writes := SoundWrite w
  caches := False
  answers
    | .get l, r => l = list → isAbsent r = false ∧
        ∀ entry, r = .ok entry → SoundWrite w l (some entry.value)
    | _, _ => True

/-- The location is one of a list of versions. -/
inductive IsList (ns : String) : Loc → Prop
  | versions (name : String) : IsList ns ⟨ns, .wfVersion, name⟩
  | specs (type : String) : IsList ns ⟨ns, .wfTaskSpecVer, type⟩

variable {list : Loc}

theorem versions_eq {name : String} {v : WorkflowVersions}
    (hv : w.value ⟨ns, .wfVersion, name⟩ = some v) : w.versions ns name = v.version := by
  rw [World.versions, hv, Option.getD_some]

/-- A list of a sound registry may be written as it is. -/
theorem World.RegistrySound.soundWrite (h : w.RegistrySound ns) (hlist : IsList ns list)
    {v : list.Val} (hv : w.value list = some v) : SoundWrite w list (some v) := by
  cases hlist with
  | versions name => exact ⟨by simp [hv], v, rfl, (versions_eq hv).symm⟩
  | specs type => exact ⟨v, rfl, h.specs type v hv⟩

/-- An empty list may not be written. -/
theorem World.RegistrySound.not_soundWrite_zero (h : w.RegistrySound ns) (hlist : IsList ns list) :
    ¬ SoundWrite w list (some list.bucket.zero) := by
  cases hlist with
  | versions name =>
    rintro ⟨hstored, u, hu, hversions⟩
    obtain ⟨v, hv⟩ := Option.ne_none_iff_exists'.1 hstored
    cases hu
    rw [versions_eq hv] at hversions
    exact h.versions name v hv hversions.symm
  | specs type =>
    rintro ⟨ids, hids, hne⟩
    cases hids
    exact hne rfl

/-- Every location holds what it held, or a value that keeps the registry sound. -/
def SoundlyWritten (w w' : World) : Prop :=
  ∀ l, w'.value l = w.value l ∨ SoundWrite w l (w'.value l)

/-- A value is written. What was there before does not matter. -/
theorem SoundlyWritten.put {l : Loc} {v : l.Val}
    (h : ∀ l' ≠ l, w'.value l' = w.value l' ∨ SoundWrite w l' (w'.value l'))
    (hv : SoundWrite w l (some v)) : SoundlyWritten w (w'.put l v) := by
  intro l'
  by_cases hl : l' = l
  · subst hl
    exact .inr ((put_value_self ..).symm ▸ hv)
  · rw [put_value_of_ne _ _ hl]
    exact h l' hl

/-- **A registry stays sound under such writes.** -/
theorem World.RegistrySound.of_writes (h : w.RegistrySound ns) (hwrites : SoundlyWritten w w')
    (hcache : w'.cache = w.cache) (hids : w.ids ⊆ w'.ids) : w'.RegistrySound ns := by
  have hlist (name : String) : w'.versions ns name = w.versions ns name ∧
      (w'.value ⟨ns, .wfVersion, name⟩ = none ↔ w.value ⟨ns, .wfVersion, name⟩ = none) := by
    rcases hwrites ⟨ns, .wfVersion, name⟩ with hsame | ⟨hstored, u, hu, hversions⟩
    · exact ⟨versions_of_value hsame, by rw [hsame]⟩
    · exact ⟨(versions_eq hu).trans hversions, by simp [hu, hstored]⟩
  have hprocess (processId : String) : w'.value ⟨ns, .wfProcess, processId⟩ =
      w.value ⟨ns, .wfProcess, processId⟩ := (hwrites _).resolve_right id
  have hread (id : String) (wf : Workflow) : w'.ReadAs ns id wf ↔ w.ReadAs ns id wf := by
    rw [World.ReadAs, World.ReadAs, hcache, (hwrites ⟨ns, .wf, id⟩).resolve_right fun h => h]
  refine ⟨fun name v hv => ?_, fun processId name hname => ?_, fun type ids hids => ?_,
    fun processId name newest wf hname hnewest hwf => ?_, fun id wf hwf => ?_,
    fun name newest hnewest => ?_, fun name name' newest newest' hnewest hnewest' heq => ?_⟩
  · obtain ⟨hversions, hnone⟩ := hlist name
    obtain ⟨u, hu⟩ := Option.ne_none_iff_exists'.1 (mt hnone.2 (by simp [hv]))
    rw [versions_eq hv, versions_eq hu] at hversions
    exact hversions ▸ h.versions name u hu
  · exact mt (hlist name).2.1 (h.mapped processId name (hprocess processId ▸ hname))
  · rcases hwrites ⟨ns, .wfTaskSpecVer, type⟩ with hsame | ⟨ids', hids', hne⟩
    · exact h.specs type ids (hsame ▸ hids)
    · obtain rfl : ids = ids' := Option.mem_unique hids hids'
      exact hne
  · rw [(hlist name).1] at hnewest
    exact h.launches processId name newest wf (hprocess processId ▸ hname) hnewest
      ((hread _ _).1 hwf)
  · exact hids (h.issued id wf ((hread id wf).1 hwf))
  · rw [(hlist name).1] at hnewest
    exact hids (h.newestIssued name newest hnewest)
  · rw [(hlist name).1] at hnewest
    rw [(hlist name').1] at hnewest'
    exact h.distinct name name' newest newest' hnewest hnewest' heq

/-- **A program of this footprint keeps the registry sound**, whichever of its calls fail. -/
theorem World.RegistrySound.exec (h : w.RegistrySound ns) (hlist : IsList ns list)
    (hstored : w.value list ≠ none) {α : Type} {Q : α → Prop} {p : P α} {a : α}
    (hp : (soundFootprint w list).discipline.Ensures Q p) (hexec : Exec (env F) w p w' a) :
    w'.RegistrySound ns := by
  have hframe := Footprint.frame (fun {o v r v'} henv _ _ hframe => ?_) hp hexec
  · exact h.of_writes hframe.1 (hframe.2 id) (ids_subset_of_exec hexec)
  cases o with
  | get l =>
    rintro rfl
    have hwrite {u : l.Val} (hu : v.value l = some u) : SoundWrite w l (some u) := by
      rcases hframe l with hsame | hwritten
      · exact h.soundWrite hlist (hsame ▸ hu)
      · exact hu ▸ hwritten
    rcases henv with ⟨-, ⟨hnone, -⟩ | ⟨u, isNil, hu, hnil, rfl⟩ | ⟨-, text, rfl⟩⟩
    · rcases hframe l with hsame | hwritten
      · exact absurd (hsame ▸ hnone) hstored
      · rw [hnone] at hwritten
        cases hlist with
        | versions name => obtain ⟨-, u, hu, -⟩ := hwritten; cases hu
        | specs type => obtain ⟨u, hu, -⟩ := hwritten; cases hu
    · refine ⟨?_, ?_⟩
      · cases isNil with
        | false => rfl
        | true => exact absurd (hnil rfl ▸ hwrite hu) (h.not_soundWrite_zero hlist)
      · rintro _ ⟨⟩
        exact hwrite hu
    · exact ⟨rfl, nofun⟩
  | _ => trivial

/-- A switch leaves the versions as they are. -/
theorem touches_makeExecutable_sound (name : String) (disabled : Bool) :
    Touches (soundFootprint w ⟨ns, .wfVersion, name⟩) (makeExecutable ns name disabled) := by
  refine (yields_kvsFor trivial).wrap.andThen fun _ => Yields.andThen
    (yields_updateObj trivial ?_ (.inr fun _ hr => (hr rfl).1)).wrap fun _ => yields_pure trivial
  rintro entry uv rev hentry huv
  obtain ⟨hstored, u, hu, hversions⟩ := (hentry rfl).2 entry rfl
  cases hu
  cases huv
  exact ⟨hstored, _, rfl, hversions⟩

theorem touches_putTaskSpec_sound (createUID : TaskSpec → Except Err String) (type : String)
    (spec : TaskSpec) :
    Touches (soundFootprint w ⟨ns, .wfTaskSpecVer, type⟩) (putTaskSpec createUID ns type spec) :=
  touches_putTaskSpec (fun _ => trivial) trivial (.inr fun _ hr => (hr rfl).1) fun _ _ _ _ =>
    ⟨_, rfl, append_ne_nil_of_right_ne_nil _ (cons_ne_nil _ _)⟩

/-- A specification that is put gets a version. -/
theorem ends_putTaskSpec (createUID : TaskSpec → Except Err String) (type : String)
    (spec : TaskSpec) : Ends (env noFault) X
      (fun w' _ => SoundlyWritten w w' ∧ w'.cache = w.cache) w
      (putTaskSpec createUID ns type spec).run := by
  rw [putTaskSpec, ends_seq, ends_nsKVs]
  refine ⟨ends_seq.2 (ends_wrap.2 ?_), nofun⟩
  cases hhash : createUID spec with
  | error e => exact ends_ret.2 ⟨fun _ => .inl rfl, rfl⟩
  | ok uid =>
    refine ends_ret.2 (ends_seq.2 (ends_wrap.2 (ends_wrap.2 (ends_createConsumer.2 ⟨?_, nofun⟩))))
    refine ends_seq.2 (ends_wrap.2 (ends_saveObj.2 ⟨ends_seq.2 (ends_liftM.2 ?_), nofun⟩))
    -- the list, which may be written before, is written with the id added
    have hloop (w₁ : World) (ids : List String)
        (hids : w₁.value ⟨ns, .wfTaskSpecVer, type⟩ = some ids)
        (hw₁ : ∀ l ≠ ⟨ns, .wfTaskSpecVer, type⟩,
          w₁.value l = w.value l ∨ SoundWrite w l (w₁.value l))
        (hcache : w₁.cache = w.cache) : Ends (env noFault) X
          (fun w' (r : Except Err Unit × Unit) => r.1 = .ok () ∧ SoundlyWritten w w' ∧
            w'.cache = w.cache) w₁
          (updateKVWith ⟨ns, .wfTaskSpecVer, type⟩ () (addTaskVersion ns uid spec)) := by
      have hne : ids ++ [uid] ≠ [] :=
        append_ne_nil_of_right_ne_nil _ (cons_ne_nil _ _)
      refine ends_updateKVWith hids ?_
      rw [addTaskVersion, Prog.bind_eq_bind, ends_bind, ends_publishMsg]
      refine ⟨ends_ret.2 ⟨ids ++ [uid], rfl, rfl, rfl, ?_, hcache⟩, nofun⟩
      exact SoundlyWritten.put hw₁ ⟨_, rfl, hne⟩
    have hw₀ : SoundlyWritten w ((w.createConsumer ("ServiceTask_" ++ ns ++ "_" ++ uid)).put
        ⟨ns, .wfTaskSpec, uid⟩ spec) := .put (fun _ _ => .inl rfl) trivial
    refine (ends_updateObjWith (fun _ => hloop _ [] (put_value_self ..) (fun l hl => ?_) (by rfl))
      fun ids hids => hloop _ ids hids (fun l _ => hw₀ l) (by rfl)).mono ?_
    · rw [put_value_of_ne _ _ hl]
      exact hw₀ l
    · rintro w' ⟨r, u⟩ ⟨hr, hwritten⟩
      obtain rfl : r = .ok () := hr
      exact ends_seq.2 (ends_wrap.2 (ends_ofExcept.2 (ends_pure.2 hwritten)))

/-! ### Loads -/

/-- The ids under which a load from `w` to `w'` may store its definition: those that were issued
meanwhile, and the one of the version that was the newest before. -/
def OwnId (ns name : String) (w w' : World) (id : String) : Prop :=
  (id ∉ w.ids ∧ id ∈ w'.ids) ∨
    ∃ newest, (w.versions ns name).getLast? = some newest ∧ newest.id = id

/-- What a load of the workflow may write. -/
def LoadWrite (ns : String) (wf : Workflow) (w w' : World) : (l : Loc) → Option l.Val → Prop
  | ⟨_, .wfProcess, processId⟩, v => v = some wf.name ∧ processId ∈ wf.process.keys
  | ⟨_, .wfVersion, name⟩, v => name = wf.name ∧ ∃ u : WorkflowVersions, v = some u ∧
      (∀ newest, u.version.getLast? = some newest → OwnId ns wf.name w w' newest.id) ∧
      (w.value ⟨ns, .wfVersion, wf.name⟩ ≠ none → u.version ≠ [])
  | ⟨_, .wf, id⟩, v => OwnId ns wf.name w w' id ∧
      ∃ wf', v = some wf' ∧ ∀ key ∈ wf.process.keys, Workflow.Launches wf' key
  | ⟨_, .wfTaskSpecVer, _⟩, _ => False
  | _, _ => True

/-- The footprint of a load from `w` to `w'`. -/
def loadFootprint (ns : String) (wf : Workflow) (w w' : World) : Footprint where
  reads _ := True
  writes := LoadWrite ns wf w w'
  caches := False
  answers
    | .newId, id => id ∉ w.ids ∧ id ∈ w'.ids
    | .mapOrder keys, order => List.Perm order keys
    | .get l, r => l = ⟨ns, .wfVersion, wf.name⟩ → (w.value l ≠ none → isAbsent r = false) ∧
        ∀ entry, r = .ok entry → LoadWrite ns wf w w' l (some entry.value)
    | _, _ => True

theorem loadReach_load : LoadReach (loadFootprint ns wf w w') ns wf.name (OwnId ns wf.name w w')
    fun wf' => ∀ key ∈ wf.process.keys, wf'.Launches key where
  reads _ _ _ := trivial
  issued _ h := .inl h
  first := by
    by_cases hstored : w.value ⟨ns, .wfVersion, wf.name⟩ = none
    · exact .inl ⟨rfl, _, rfl, by simp, fun h => absurd hstored h⟩
    · exact .inr fun _ hr => (hr rfl).1 hstored
  found entry newest hentry hnewest := by
    obtain ⟨-, u, hu, hown, hne⟩ := (hentry rfl).2 entry rfl
    cases hu
    exact ⟨⟨rfl, _, rfl, hown, hne⟩, hown newest hnewest⟩
  added entry id wf' hash hown _ _ := by
    refine ⟨rfl, _, rfl, fun newest hnewest => ?_, fun _ => by simp⟩
    rw [getLast?_concat, Option.some.injEq] at hnewest
    exact hnewest ▸ hown
  definition _ wf' hown hgood := ⟨hown, wf', rfl, hgood⟩
  messageType _ _ := trivial
  clientTask _ _ := trivial

/-- A definition as the parser leaves it: there is a collaboration, and every process is stored
under its own id. -/
def Workflow.Parsed (wf : Workflow) : Prop :=
  wf.collaboration ≠ none ∧ ∀ key pr, wf.process.lookup key = some pr → pr.id = key

theorem touches_parsedLoad (hparsed : wf.Parsed) :
    Touches (loadFootprint ns wf w w') (loadWorkflowDefinition lib getHash ns wf) := by
  refine touches_loadWorkflowDefinition loadReach_load (fun _ => trivial) ?_ ?_
  · intro order horder key hkey
    have hmem : key ∈ wf.process.keys := List.Perm.mem_iff horder |>.1 hkey
    obtain ⟨pr, hpr⟩ := Option.isSome_iff_exists.1 (AList.lookup_isSome.2 (AList.mem_keys.2 hmem))
    refine ⟨rfl, ?_⟩
    rw [hpr, Option.getD_some, hparsed.2 key pr hpr]
    exact hmem
  · exact fun order wf' horder htasked => htasked.launches horder hparsed.1

/-- What a load does to a sound registry. -/
theorem World.RegistrySound.load_frame (h : w.RegistrySound ns) (hparsed : wf.Parsed)
    {r : Except Err String}
    (hexec : Exec (env F) w (loadWorkflowDefinition lib getHash ns wf).run w' r) :
    (∀ l, w'.value l = w.value l ∨ LoadWrite ns wf w w' l (w'.value l)) ∧ w'.cache = w.cache := by
  have htouches : Touches (loadFootprint ns wf w w') (loadWorkflowDefinition lib getHash ns wf) :=
    touches_parsedLoad hparsed
  have hframe := Footprint.frame (fun {o v r v'} henv hids hlater hframe => ?_) htouches hexec
  · exact ⟨hframe.1, hframe.2 id⟩
  cases o with
  | newId =>
    obtain ⟨hfresh, rfl⟩ := henv
    exact ⟨fun hmem => hfresh.1 (hids hmem), hlater mem_cons_self⟩
  | mapOrder keys => exact henv.2
  | get l =>
    rintro rfl
    have hwrite {u : WorkflowVersions} (hu : v.value ⟨ns, .wfVersion, wf.name⟩ = some u) :
        LoadWrite ns wf w w' ⟨ns, .wfVersion, wf.name⟩ (some u) := by
      rcases hframe ⟨ns, .wfVersion, wf.name⟩ with hsame | hwritten
      · rw [hu] at hsame
        refine ⟨rfl, u, rfl, fun newest hnewest => .inr ⟨newest, ?_, rfl⟩, fun _ => ?_⟩
        · rwa [versions_eq hsame.symm]
        · exact h.versions _ u hsame.symm
      · exact hu ▸ hwritten
    rcases henv with ⟨-, ⟨hnone, rfl⟩ | ⟨u, isNil, hu, hnil, rfl⟩ | ⟨-, text, rfl⟩⟩
    · refine ⟨fun hstored => ?_, nofun⟩
      rcases hframe ⟨ns, .wfVersion, wf.name⟩ with hsame | ⟨-, u, hu, -⟩
      · exact absurd (hsame ▸ hnone) hstored
      · cases hnone.symm.trans hu
    · refine ⟨fun hstored => ?_, ?_⟩
      · cases isNil with
        | false => rfl
        | true =>
          obtain ⟨-, u', hu', -, hne⟩ := hwrite hu
          cases hu'
          exact absurd (congrArg WorkflowVersions.version (hnil rfl)) (hne hstored)
      · rintro _ ⟨⟩
        exact hwrite hu
    · exact ⟨fun _ => rfl, nofun⟩
  | _ => trivial

/-- **A load keeps the registry sound** if its list has a version in the end, every process that was
mapped to the workflow is one of the definition, and what may be read as the newest version is new
or launches the processes of the definition. -/
theorem World.RegistrySound.of_load (h : w.RegistrySound ns)
    (hframe : ∀ l, w'.value l = w.value l ∨ LoadWrite ns wf w w' l (w'.value l))
    (hcache : w'.cache = w.cache) (hids : w.ids ⊆ w'.ids)
    (hmapped : ∀ processId, w.value ⟨ns, .wfProcess, processId⟩ = some wf.name →
      processId ∈ wf.process.keys)
    (hversions : w'.versions ns wf.name ≠ [])
    (hnewest : ∀ newest, (w'.versions ns wf.name).getLast? = some newest → newest.id ∉ w.ids ∨
      ∀ wf', w.ReadAs ns newest.id wf' → ∀ key ∈ wf.process.keys, wf'.Launches key) :
    w'.RegistrySound ns := by
  have hother {name : String} (hname : name ≠ wf.name) :
      w'.value ⟨ns, .wfVersion, name⟩ = w.value ⟨ns, .wfVersion, name⟩ :=
    (hframe _).resolve_right fun hwritten => hname hwritten.1
  have hotherVersions {name : String} (hname : name ≠ wf.name) :
      w'.versions ns name = w.versions ns name := versions_of_value (hother hname)
  have hstored : w'.value ⟨ns, .wfVersion, wf.name⟩ ≠ none := fun hnone =>
    hversions (by rw [World.versions, hnone]; rfl)
  have hown {newest : WorkflowVersion} (hlast : (w'.versions ns wf.name).getLast? = some newest) :
      OwnId ns wf.name w w' newest.id := by
    rcases hframe ⟨ns, .wfVersion, wf.name⟩ with hsame | ⟨-, u, hu, hown, -⟩
    · exact .inr ⟨newest, versions_of_value hsame ▸ hlast, rfl⟩
    · exact hown newest (versions_eq hu ▸ hlast)
  have hownIssued {id : String} (hid : OwnId ns wf.name w w' id) : id ∈ w'.ids := by
    rcases hid with ⟨-, hmem⟩ | ⟨newest, hlast, rfl⟩
    · exact hmem
    · exact hids (h.newestIssued _ newest hlast)
  -- the newest version of another workflow is not an own one
  have hforeign {name : String} (hname : name ≠ wf.name) {newest : WorkflowVersion}
      (hlast : (w.versions ns name).getLast? = some newest) :
      ¬ OwnId ns wf.name w w' newest.id := by
    rintro (⟨hfresh, -⟩ | ⟨newest', hlast', heq⟩)
    · exact hfresh (h.newestIssued name newest hlast)
    · exact hname (h.distinct name wf.name newest newest' hlast hlast' heq.symm)
  have hprocess {processId name : String}
      (hname : w'.value ⟨ns, .wfProcess, processId⟩ = some name) :
      w.value ⟨ns, .wfProcess, processId⟩ = some name ∨
        name = wf.name ∧ processId ∈ wf.process.keys := by
    rcases hframe ⟨ns, .wfProcess, processId⟩ with hsame | ⟨hwritten, hmem⟩
    · exact .inl (hsame ▸ hname)
    · exact .inr ⟨Option.mem_unique hname hwritten, hmem⟩
  have hread {id : String} {wf' : Workflow} (hwf' : w'.ReadAs ns id wf') : w.ReadAs ns id wf' ∨
      OwnId ns wf.name w w' id ∧ ∀ key ∈ wf.process.keys, wf'.Launches key := by
    rcases hwf' with hcached | hvalue
    · exact .inl (.inl (hcache ▸ hcached))
    · rcases hframe ⟨ns, .wf, id⟩ with hsame | ⟨hid, wf'', hwf'', hgood⟩
      · exact .inl (.inr (hsame ▸ hvalue))
      · exact .inr ⟨hid, Option.mem_unique hvalue hwf'' ▸ hgood⟩
  refine ⟨fun name v hv => ?_, fun processId name hname => ?_, fun type ids hids => ?_,
    fun processId name newest wf' hname hlast hwf' => ?_, fun id wf' hwf' => ?_,
    fun name newest hlast => ?_, fun name name' newest newest' hlast hlast' heq => ?_⟩
  · by_cases hname : name = wf.name
    · subst hname
      rwa [versions_eq hv] at hversions
    · exact h.versions name v (hother hname ▸ hv)
  · by_cases hwf : name = wf.name
    · exact hwf ▸ hstored
    · rw [hother hwf]
      exact h.mapped processId name ((hprocess hname).resolve_right fun hwritten => hwf hwritten.1)
  · exact h.specs type ids ((hframe ⟨ns, .wfTaskSpecVer, type⟩).resolve_right id ▸ hids)
  · by_cases hwf : name = wf.name
    · subst hwf
      have hmem : processId ∈ wf.process.keys :=
        (hprocess hname).elim (hmapped processId) And.right
      rcases hread hwf' with hold | ⟨-, hgood⟩
      · rcases hnewest newest hlast with hfresh | hgood
        · exact absurd (h.issued _ _ hold) hfresh
        · exact hgood wf' hold processId hmem
      · exact hgood processId hmem
    · have hname := (hprocess hname).resolve_right fun hwritten => hwf hwritten.1
      rw [hotherVersions hwf] at hlast
      have hold := (hread hwf').resolve_right fun hwritten => hforeign hwf hlast hwritten.1
      exact h.launches processId name newest wf' hname hlast hold
  · rcases hread hwf' with hold | ⟨hid, -⟩
    · exact hids (h.issued id wf' hold)
    · exact hownIssued hid
  · by_cases hname : name = wf.name
    · subst hname
      exact hownIssued (hown hlast)
    · exact hids (h.newestIssued name newest (hotherVersions hname ▸ hlast))
  · by_cases hname : name = wf.name
    · by_cases hname' : name' = wf.name
      · rw [hname, hname']
      · rw [hotherVersions hname'] at hlast'
        exact absurd (heq ▸ hown (hname ▸ hlast)) (hforeign hname' hlast')
    · rw [hotherVersions hname] at hlast
      by_cases hname' : name' = wf.name
      · exact absurd (heq ▸ hown (hname' ▸ hlast')) (hforeign hname hlast)
      · rw [hotherVersions hname'] at hlast'
        exact h.distinct name name' newest newest' hlast hlast' heq

/-! ### Sequences of operations -/

/-- The operations that write the registry. -/
inductive RegistryOp
  | loadWorkflow (wf : Workflow)
  | enableWorkflow (name : String)
  | disableWorkflow (name : String)
  | putTaskSpec (type : String) (spec : TaskSpec)

/-- The operation runs to its end, with a result or an error, where the calls `F` may fail. -/
def RegistryOp.Done (lib : Lib) (getHash : Workflow → Bytes)
    (createUID : TaskSpec → Except Err String) (ns : String) (F : Op → Prop) (w w' : World) :
    RegistryOp → Prop
  | .loadWorkflow wf => ∃ r, Exec (env F) w (loadWorkflowDefinition lib getHash ns wf).run w' r
  | .enableWorkflow name => ∃ r, Exec (env F) w (SharWorkflow.enableWorkflow ns name).run w' r
  | .disableWorkflow name => ∃ r, Exec (env F) w (SharWorkflow.disableWorkflow ns name).run w' r
  | .putTaskSpec type spec =>
    ∃ r, Exec (env F) w (SharWorkflow.putTaskSpec createUID ns type spec).run w' r

/-- What a load must find in the registry: every process that is mapped to the workflow is one of
the definition. And what may be read as the newest version launches its processes; or, if no call
fails, all its service tasks pass, and it is not taken for the newest version. -/
structure LoadsCarefully (lib : Lib) (getHash : Workflow → Bytes) (ns : String) (F : Op → Prop)
    (w : World) (wf : Workflow) : Prop where
  parsed : wf.Parsed
  mapped : ∀ processId, w.value ⟨ns, .wfProcess, processId⟩ = some wf.name →
    processId ∈ wf.process.keys
  version : (w.value ⟨ns, .wfVersion, wf.name⟩ ≠ none ∧ ∀ newest wf',
      (w.versions ns wf.name).getLast? = some newest → w.ReadAs ns newest.id wf' →
      ∀ key ∈ wf.process.keys, wf'.Launches key) ∨
    F = noFault ∧
      (∀ key ∈ wf.process.keys, ∃ els, processVerdict lib w ns wf key = .accepted els) ∧
      ∀ newest wf', (w.versions ns wf.name).getLast? = some newest →
        Settles lib w ns wf [] wf' → newest.sha256 ≠ getHash wf'

/-- **The careful operations**: careful loads, switches of a workflow whose list is stored, and
specifications of a type whose list is stored, or of which no call fails. -/
def RegistryOp.Careful (lib : Lib) (getHash : Workflow → Bytes) (ns : String) (F : Op → Prop)
    (w : World) : RegistryOp → Prop
  | .loadWorkflow wf => LoadsCarefully lib getHash ns F w wf
  | .enableWorkflow name | .disableWorkflow name => w.value ⟨ns, .wfVersion, name⟩ ≠ none
  | .putTaskSpec type _ => w.value ⟨ns, .wfTaskSpecVer, type⟩ ≠ none ∨ F = noFault

/-- A careful load keeps the registry sound. -/
theorem LoadsCarefully.sound {r : Except Err String}
    (hcareful : LoadsCarefully lib getHash ns F w wf) (hexec : Exec (env F) w (loadWorkflowDefinition lib getHash ns wf).run w' r)
    (h : w.RegistrySound ns) : w'.RegistrySound ns := by
  obtain ⟨hframe, hcache⟩ := h.load_frame hcareful.parsed hexec
  have hids := ids_subset_of_exec hexec
  rcases hcareful.version with ⟨hstored, hread⟩ | ⟨rfl, haccepted, hnew⟩
  · -- the list is not empty, and stays so
    obtain ⟨v, hv⟩ := Option.ne_none_iff_exists'.1 hstored
    refine h.of_load hframe hcache hids hcareful.mapped ?_ fun newest hlast => ?_
    · rcases hframe ⟨ns, .wfVersion, wf.name⟩ with hsame | ⟨-, u, hu, -, hne⟩
      · rw [versions_of_value hsame, versions_eq hv]
        exact h.versions _ v hv
      · rw [versions_eq hu]
        exact hne hstored
    · rcases hframe ⟨ns, .wfVersion, wf.name⟩ with hsame | ⟨-, u, hu, hown, -⟩
      · rw [versions_of_value hsame] at hlast
        exact .inr fun wf' hwf' => hread newest wf' hlast hwf'
      · rcases hown newest (versions_eq hu ▸ hlast) with ⟨hfresh, -⟩ | ⟨old, hold, heq⟩
        · exact .inl hfresh
        · exact .inr fun wf' hwf' => hread old wf' hold (heq ▸ hwf')
  cases r with
  | ok id =>
    obtain ⟨-, wf', hloaded⟩ := Ends.load.exec hexec
    obtain ⟨newest, hlast, hhash, rfl⟩ := hloaded.newest
    refine h.of_load hframe hcache hids hcareful.mapped (fun hnil => by simp [hnil] at hlast)
      fun newest' hlast' => .inl ?_
    obtain rfl : newest = newest' := Option.mem_unique hlast hlast'
    rcases hloaded.version with ⟨-, hsame⟩ | ⟨hfresh, -⟩
    · rw [versions_of_value (hsame _ nofun)] at hlast
      exact absurd hhash (hnew newest wf' hlast hloaded.settles)
    · exact hfresh
  | error e =>
    rcases Ends.load.exec hexec with ⟨hstore, -⟩ | ⟨-, -, key, hkey, hrejected⟩
    · exact h.of_writes (fun l => .inl (value_eq_of_store hstore l)) hcache hids
    · obtain ⟨els, hels⟩ := haccepted key hkey
      cases hels.symm.trans hrejected

/-- **A careful operation keeps the registry sound.** -/
theorem RegistryOp.Careful.sound {createUID : TaskSpec → Except Err String} {op : RegistryOp}
    (hcareful : op.Careful lib getHash ns F w) (hdone : op.Done lib getHash createUID ns F w w')
    (h : w.RegistrySound ns) : w'.RegistrySound ns := by
  cases op with
  | loadWorkflow wf =>
    obtain ⟨r, hexec⟩ := hdone
    exact LoadsCarefully.sound hcareful hexec h
  | enableWorkflow name | disableWorkflow name =>
    obtain ⟨r, hexec⟩ := hdone
    exact h.exec (.versions name) hcareful (touches_makeExecutable_sound name _) hexec
  | putTaskSpec type spec =>
    obtain ⟨r, hexec⟩ := hdone
    rcases hcareful with hstored | rfl
    · exact h.exec (.specs type) hstored (touches_putTaskSpec_sound createUID type spec) hexec
    · obtain ⟨hwrites, hcache⟩ := (ends_putTaskSpec (X := True) createUID type spec).exec hexec
      exact h.of_writes hwrites hcache (ids_subset_of_exec hexec)

/-- The registry may come from `w` to `w'` by careful operations. -/
inductive CarefulRun (lib : Lib) (getHash : Workflow → Bytes)
    (createUID : TaskSpec → Except Err String) (ns : String) (w : World) : World → Prop
  | refl : CarefulRun lib getHash createUID ns w w
  | step {w₁ w₂ : World} {F : Op → Prop} {op : RegistryOp}
      (run : CarefulRun lib getHash createUID ns w w₁) (careful : op.Careful lib getHash ns F w₁)
      (done : op.Done lib getHash createUID ns F w₁ w₂) : CarefulRun lib getHash createUID ns w w₂

variable {createUID : TaskSpec → Except Err String}

theorem CarefulRun.sound (hrun : CarefulRun lib getHash createUID ns w w')
    (h : w.RegistrySound ns) : w'.RegistrySound ns := by
  induction hrun with
  | refl => exact h
  | step _ careful done ih => exact careful.sound done ih

/-- **The queries are safe in every registry that careful operations have led to**, starting from a
sound one. -/
theorem registry_queries_safe (lib : Lib) (getHash : Workflow → Bytes)
    (createUID : TaskSpec → Except Err String) (ns : String) (w w' : World)
    (hsound : w.RegistrySound ns) (hrun : CarefulRun lib getHash createUID ns w w') :
    QueriesSafe lib w' ns :=
  (hrun.sound hsound).queriesSafe

theorem World.registrySound_empty : ({} : World).RegistrySound ns where
  versions _ _ h := by cases h
  mapped _ _ h := by cases h
  specs _ _ h := by cases h
  launches _ _ _ _ h := by cases h
  issued _ _ h := by rcases h with h | h <;> cases h
  newestIssued _ _ h := by cases h
  distinct _ _ _ _ h := by cases h

/-- The first load of a definition with one process, which is then ready to be launched. -/
theorem registry_queries_safe_payment :
    ∃ w', CarefulRun (constLib ∅) (fun _ => []) (fun _ => .ok "") "default" {} w' ∧
      w'.versions "default" "Payments" ≠ [] ∧ QueriesSafe (constLib ∅) w' "default" := by
  obtain ⟨w', id, wf', hexec, hloaded⟩ := payout_loaded fun _ => []
  have hparsed : payoutWorkflow.Parsed := by
    refine ⟨nofun, fun key pr hpr => ?_⟩
    obtain rfl : key = "payment" := by
      simpa [payoutWorkflow] using AList.mem_keys.1 (AList.lookup_isSome.1
        (Option.isSome_of_eq_some hpr))
    cases hpr
    rfl
  have hrun : CarefulRun (constLib ∅) (fun _ => []) (fun _ => .ok "") "default" {} w' :=
    @CarefulRun.step _ _ _ _ _ _ _ _ (.loadWorkflow payoutWorkflow) .refl
      ⟨hparsed, fun _ h => (by cases h), .inr ⟨rfl, payout_accepted, fun _ _ h => by cases h⟩⟩
      ⟨_, hexec⟩
  obtain ⟨newest, hlast, -⟩ := hloaded.newest
  exact ⟨w', hrun, fun hnil => by simp [payoutWorkflow, hnil] at hlast,
    registry_queries_safe _ _ _ _ _ _ World.registrySound_empty hrun⟩

/-- **A workflow that is enabled before it is loaded** breaks the queries: the switch leaves a list
without versions. -/
theorem switch_breaks_queries :
    ∃ w', RegistryOp.Done (constLib ∅) (fun _ => []) (fun _ => .ok "") "default" noFault {} w'
        (.enableWorkflow "orders") ∧ ¬ QueriesSafe (constLib ∅) w' "default" := by
  have hends : Ends (env noFault) False
      (fun w' _ => w'.value ⟨"default", .wfVersion, "orders"⟩ = some ({} : WorkflowVersions)) {}
      (enableWorkflow "default" "orders").run := by
    rw [enableWorkflow, makeExecutable, ends_seq, ends_wrap, ends_kvsFor]
    refine ⟨ends_seq.2 (ends_wrap.2 (ends_updateObj.2 (ends_updateObjMsg.2
      ⟨fun _ => ⟨?_, nofun⟩, fun hthere => ?_⟩))), nofun⟩
    · -- the zero object is written first, and updated
      refine ends_updateKV.2 ⟨fun hnone => ?_, fun v hv => ?_, nofun⟩
      · cases (put_value_self ..).symm.trans hnone
      · cases (put_value_self ..).symm.trans hv
        exact ⟨ends_pure.2 (put_value_self ..), nofun⟩
    · rcases hthere with hthere | hfault
      · exact absurd rfl hthere
      · cases hfault
  obtain ⟨w', r, hexec, hvalue⟩ := hends.can
  refine ⟨w', ⟨r, hexec⟩, fun hsafe => ?_⟩
  exact versions_of_queriesSafe hsafe (World.listed_empty.exec hexec) hvalue rfl

end SharWorkflow
