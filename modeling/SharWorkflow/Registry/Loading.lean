import SharWorkflow.Registry.Checks

/-!
# Loading a definition

`LoadWorkflow` alone, when no call fails, from its checks to the version that it adds.

* `Settles`: the definition while its service tasks are checked. The checks range over the processes
  in any order, and each process that is accepted is mapped to the workflow before the next one is
  checked (`ends_processServiceTasks`).
* `Versioned`, `MessagesStored`: what becomes of the list of versions, and of the messages of a
  version that was added.
* `Loaded`: what a load that goes through has done to the registry (`Ends.load`).
-/

namespace SharWorkflow

open Concurrent List World

-- sequences are split by `ends_seq`
attribute [-simp] ExceptT.run_bind

variable {lib : Lib} {getHash : Workflow → Bytes} {ns : String} {w : World} {wf : Workflow}

/-! ### The processes of a definition -/

variable {β : Type}

/-- The entries of a map in which the entry of one key is replaced. -/
theorem GoMap.lookup_replace (s : GoMap β) (k k' : String) (v : β) :
    (s.replace k v).lookup k' = if k' = k ∧ k ∈ s.keys then some v else s.lookup k' := by
  obtain ⟨entries, _⟩ := s
  change dlookup k' (kreplace k v entries) =
    if k' = k ∧ k ∈ entries.keys then some v else dlookup k' entries
  induction entries with
  | nil => simp [kreplace]
  | cons e entries ih =>
    obtain ⟨k₀, v₀⟩ := e
    have hrest := ih (nodupKeys_cons.1 ‹_›).2
    rw [kreplace]
    by_cases hk : k = k₀
    · subst hk
      rw [lookmap_cons_some _ _ (dif_pos rfl)]
      by_cases hk' : k' = k
      · subst hk'
        simp
      · rw [dlookup_cons_ne _ _ hk', dlookup_cons_ne _ _ hk', if_neg fun h => hk' h.1]
    · rw [lookmap_cons_none _ _ (dif_neg hk)]
      rw [kreplace] at hrest
      by_cases hk' : k' = k₀
      · subst hk'
        simp [Ne.symm hk]
      · rw [dlookup_cons_ne _ _ hk', dlookup_cons_ne _ _ hk', hrest]
        simp [hk]

/-- Replacing the entry of one key leaves the others alone. -/
theorem GoMap.lookup_replace_of_ne (s : GoMap β) {k k' : String} (v : β) (h : k' ≠ k) :
    (s.replace k v).lookup k' = s.lookup k' := by
  rw [s.lookup_replace, if_neg fun h' => h h'.1]

/-- The entry of a key that is there is replaced. -/
theorem GoMap.lookup_replace_self (s : GoMap β) {k : String} (v : β) (h : k ∈ s.keys) :
    (s.replace k v).lookup k = some v := by
  rw [s.lookup_replace, if_pos ⟨rfl, h⟩]

/-- Where the process under the given key is mapped to its workflow. -/
abbrev mappingLoc (ns : String) (wf : Workflow) (key : String) : Loc :=
  ⟨ns, .wfProcess, ((wf.process.lookup key).getD {}).id⟩

/-- The process under the given key with the elements that its check has come to. -/
def settledProcess (wf : Workflow) (key : String) (els : List Element) : Process :=
  { (wf.process.lookup key).getD {} with elements := els }

/-- The definition while its processes are checked: those in `rest` are still as they were. -/
structure Underway (wf : Workflow) (rest : List String) (wf' : Workflow) : Prop where
  name : wf'.name = wf.name
  errors : wf'.errors = wf.errors
  process : ∀ key ∈ rest, wf'.process.lookup key = wf.process.lookup key

theorem Underway.next {key : String} {rest : List String} {wf' : Workflow} {i : Process}
    (h : Underway wf (key :: rest) wf') (hnodup : (key :: rest).Nodup) :
    Underway wf rest { wf' with process := wf'.process.replace key i } where
  name := h.name
  errors := h.errors
  process := by
    intro key' hkey'
    have hne : key' ≠ key := fun heq => (nodup_cons.1 hnodup).1 (heq ▸ hkey')
    rw [← h.process key' (mem_cons_of_mem _ hkey')]
    exact GoMap.lookup_replace_of_ne _ _ hne

theorem SameSpecs.trans {w₁ w₂ w₃ : World} (h : SameSpecs w₁ w₂) (h' : SameSpecs w₂ w₃) :
    SameSpecs w₁ w₃ :=
  ⟨fun ns name => (h'.versions ns name).trans (h.versions ns name),
    fun ns uid => (h'.specs ns uid).trans (h.specs ns uid)⟩

/-- The definition `wf'` is `wf` with the processes outside of `rest` as their checks leave them. -/
structure Settles (lib : Lib) (w : World) (ns : String) (wf : Workflow) (rest : List String)
    (wf' : Workflow) : Prop where
  same : wf' = { wf with process := wf'.process }
  keys : wf'.process.keys = wf.process.keys
  waiting : ∀ key ∈ rest, wf'.process.lookup key = wf.process.lookup key
  settled : ∀ key ∈ wf.process.keys, key ∉ rest → ∃ els,
    processVerdict lib w ns wf key = .accepted els ∧
      wf'.process.lookup key = some (settledProcess wf key els)

variable {key : String} {rest : List String} {wf' : Workflow}

theorem Settles.underway (h : Settles lib w ns wf rest wf') : Underway wf rest wf' :=
  ⟨by rw [h.same], by rw [h.same], h.waiting⟩

/-- Before the checks everything is as it was. -/
theorem Settles.start {order : List String} (hperm : order.Perm wf.process.keys) :
    Settles lib w ns wf order wf :=
  ⟨rfl, rfl, fun _ _ => rfl, fun _ hkey hrest => absurd (hperm.mem_iff.2 hkey) hrest⟩

theorem Settles.next {els : List Element} (h : Settles lib w ns wf (key :: rest) wf')
    (hnodup : (key :: rest).Nodup) (haccepted : processVerdict lib w ns wf key = .accepted els) :
    Settles lib w ns wf rest
      { wf' with process := wf'.process.replace key (settledProcess wf key els) } where
  same := by
    have hsame := h.same
    generalize wf'.process = process at hsame ⊢
    subst hsame
    rfl
  keys := by rw [AList.keys_replace, h.keys]
  waiting := (h.underway.next hnodup).process
  settled := by
    intro key' hkey' hrest
    by_cases heq : key' = key
    · subst heq
      exact ⟨els, haccepted, GoMap.lookup_replace_self _ _ (h.keys ▸ hkey')⟩
    · obtain ⟨els', haccepted', hlookup⟩ := h.settled key' hkey' (by simp [heq, hrest])
      exact ⟨els', haccepted', (GoMap.lookup_replace_of_ne _ _ heq).trans hlookup⟩

section Checks

variable {svcTaskConsFn : String → Act Unit} {wfProcessMappingFn : Workflow → Process → Act Unit}
  {w₁ : World} {P R : World → Prop}

/-- The function that maps a process to the workflow succeeds, and leads from `P` to `R`. -/
def MapsTo (wfProcessMappingFn : Workflow → Process → Act Unit) (wf : Workflow) (pr : Process)
    (P R : World → Prop) : Prop :=
  ∀ (w : World) (wf' : Workflow), P w → wf'.name = wf.name →
    Ends (env noFault) False (fun w' r => R w' ∧ r = .ok ()) w
      (wfProcessMappingFn wf' pr).run

theorem mapsTo_createWorkflowProcessMapping {pr : Process}
    (h : ∀ w : World, P w → R (w.put ⟨ns, .wfProcess, pr.id⟩ wf.name)) :
    MapsTo (createWorkflowProcessMapping ns) wf pr P R := by
  intro w wf' hP hname
  simp only [createWorkflowProcessMapping, ends_wrap, ends_kvPut, mapError_ok, noFault_iff,
    false_imp_iff, and_true]
  exact hname ▸ h w hP

/-- **One process**, in a world `w₁` with the specifications of `w`: it comes to its verdict, and an
accepted process is mapped to its workflow. -/
theorem ends_processTasks (hcons : KeepsStore svcTaskConsFn) (hspecs : SameSpecs w w₁)
    (h : Settles lib w ns wf (key :: rest) wf') (hnodup : (key :: rest).Nodup)
    (hmaps : ∀ els, processVerdict lib w ns wf key = .accepted els →
      MapsTo wfProcessMappingFn wf (settledProcess wf key els) (fun w => w.store = w₁.store) R) :
    Ends (env noFault) (processVerdict lib w ns wf key = .panics)
      (fun w₂ r => match r with
        | .error _ => processVerdict lib w ns wf key = .rejected ∧ w₂.store = w₁.store
        | .ok wf'' => R w₂ ∧ Settles lib w ns wf rest wf'') w₁
      (processTasks lib ns svcTaskConsFn wfProcessMappingFn wf' key).run := by
  have hkey := h.waiting key mem_cons_self
  have hverdict : elementsVerdict lib w₁ ns wf'.errors ((wf'.process.lookup key).getD {}).elements =
      processVerdict lib w ns wf key := by
    rw [elementsVerdict_of_sameSpecs hspecs, hkey, h.underway.errors, processVerdict]
  rw [processTasks, ends_seq, ← hverdict]
  refine Ends.mono (judges_processElements hcons _ _) ?_
  rw [hverdict]
  rintro w₂ r ⟨hstore, hr⟩
  cases hv : processVerdict lib w ns wf key with
  | panics => simp [hv] at hr
  | rejected =>
    cases r with
    | error e => exact ⟨rfl, hstore⟩
    | ok els => simp [hv] at hr
  | accepted els =>
    obtain rfl : r = .ok els := by cases r <;> simp_all
    have hsettled : { (wf'.process.lookup key).getD {} with elements := els } =
        settledProcess wf key els := by rw [settledProcess, hkey]
    dsimp only
    rw [hsettled, ends_seq, ends_wrap]
    refine ((hmaps els hv w₂ _ hstore ?_).imp False.elim).mono ?_
    · exact h.underway.name
    rintro w₃ _ ⟨hR, rfl⟩
    exact ends_pure.2 ⟨hR, h.next hnodup hv⟩

/-- How the checks of the processes `keys` end: with a process that fails its check, or with the
definition as they leave it. In both cases `R` holds. -/
def Checked (lib : Lib) (w : World) (ns : String) (wf : Workflow) (R : World → Prop)
    (keys : List String) (w' : World) : Except Err Workflow → Prop
  | .error _ => R w' ∧ ∃ key ∈ keys, processVerdict lib w ns wf key = .rejected
  | .ok wf' => R w' ∧ Settles lib w ns wf [] wf'

theorem Checked.mono {keys keys' : List String} {w' : World} {r : Except Err Workflow}
    (h : Checked lib w ns wf R keys w' r) (hsub : keys ⊆ keys') :
    Checked lib w ns wf R keys' w' r := by
  cases r with
  | ok wf' => exact h
  | error e =>
    obtain ⟨hR, key, hkey, hrejected⟩ := h
    exact ⟨hR, key, hsub hkey, hrejected⟩

variable (hcons : KeepsStore svcTaskConsFn) (hR : ∀ {w w' : World}, w'.store = w.store → R w → R w')
  (hspecs : ∀ w', R w' → SameSpecs w w') (hR₁ : R w₁)

include hcons hR hspecs hR₁

/-- **The processes of a definition**, in the order `rest`. What holds when every accepted process
is mapped in turn holds in the end. -/
theorem ends_processFold (hmaps : ∀ key ∈ rest, ∀ els,
      processVerdict lib w ns wf key = .accepted els →
      MapsTo wfProcessMappingFn wf (settledProcess wf key els) R R)
    (h : Settles lib w ns wf rest wf') (hnodup : rest.Nodup) :
    Ends (env noFault) (∃ key ∈ rest, processVerdict lib w ns wf key = .panics)
      (Checked lib w ns wf R rest) w₁
      (rest.foldlM (processTasks lib ns svcTaskConsFn wfProcessMappingFn) wf').run := by
  -- along the order, with the store and the definition as the processes before have left them
  induction rest generalizing w₁ wf' with
  | nil => exact ends_ret.2 ⟨hR₁, h⟩
  | cons key rest ih =>
    rw [foldlM_cons, ends_seq]
    refine ((ends_processTasks hcons (hspecs w₁ hR₁) h hnodup fun els hels w₂ wf'' hstore =>
      hmaps key mem_cons_self els hels w₂ wf'' (hR hstore hR₁)).imp
      fun hpanics => ⟨key, mem_cons_self, hpanics⟩).mono ?_
    rintro w₂ (e | wf'') hr
    · exact ⟨hR hr.2 hR₁, key, mem_cons_self, hr.1⟩
    · refine ((ih hr.1 (fun key' hkey' => hmaps key' (mem_cons_of_mem _ hkey')) hr.2
        (nodup_cons.1 hnodup).2).imp ?_).mono fun w' r hr => hr.mono (subset_cons_self _ _)
      exact fun ⟨key', hkey', hpanics⟩ => ⟨key', mem_cons_of_mem _ hkey', hpanics⟩

/-- **The checks of the service tasks**, in whichever order the processes are ranged over. -/
theorem ends_processServiceTasks (hmaps : ∀ key ∈ wf.process.keys, ∀ els,
      processVerdict lib w ns wf key = .accepted els →
      MapsTo wfProcessMappingFn wf (settledProcess wf key els) R R) :
    Ends (env noFault) (∃ key ∈ wf.process.keys, processVerdict lib w ns wf key = .panics)
      (Checked lib w ns wf R wf.process.keys) w₁
      (processServiceTasks lib ns svcTaskConsFn wfProcessMappingFn wf).run := by
  rw [processServiceTasks, ends_seq, ends_mapOrder]
  intro order hperm
  have hfold := ends_processFold hcons hR hspecs hR₁ (fun key hkey => hmaps key
    (hperm.mem_iff.1 hkey)) (.start hperm) (hperm.nodup_iff.2 wf.process.keys_nodup)
  refine (hfold.imp ?_).mono fun w' r hr => hr.mono hperm.subset
  exact fun ⟨key, hkey, hpanics⟩ => ⟨key, hperm.mem_iff.1 hkey, hpanics⟩

end Checks

/-! ### A definition that passes its checks -/

variable {X : Prop}

/-- Writing what is there changes nothing. -/
theorem put_value_of_eq {w : World} {l : Loc} {v : l.Val} (h : w.value l = some v) (l' : Loc) :
    (w.put l v).value l' = w.value l' := by
  by_cases hl : l' = l
  · subst hl
    rw [put_value_self, h]
  · exact put_value_of_ne w v hl

/-- The versions of a workflow, none if there is no list. -/
def World.versions (w : World) (ns name : String) : List WorkflowVersion :=
  ((w.value ⟨ns, .wfVersion, name⟩).getD ({} : WorkflowVersions)).version

/-- What became of a definition in the list of versions: it was the newest version already, or it
was added with the id at hand. -/
inductive Versioned (ns name : String) (hash : Bytes) (wfID : String) (w w' : World) :
    Stored → Prop
  | kept {newest : WorkflowVersion} (last : (w.versions ns name).getLast? = some newest)
      (hash_eq : newest.sha256 = hash) (same : ∀ l, w'.value l = w.value l) :
      Versioned ns name hash wfID w w' ⟨newest.id, false⟩
  | added (number : Int32)
      (new : ∀ newest, (w.versions ns name).getLast? = some newest → newest.sha256 ≠ hash)
      (last : w'.versions ns name = w.versions ns name ++ [⟨wfID, hash, number⟩])
      (same : ∀ l : Loc, l.bucket ≠ .wfVersion → l.bucket ≠ .wf → w'.value l = w.value l) :
      Versioned ns name hash wfID w w' ⟨wfID, true⟩

/-- A list of versions that is empty is as good as none. -/
theorem Versioned.of_empty {name : String} {hash : Bytes} {wfID : String} {w w₁ w' : World}
    {stored : Stored} (h : Versioned ns name hash wfID w₁ w' stored)
    (hempty : w.versions ns name = []) (hempty₁ : w₁.versions ns name = [])
    (hsame : ∀ l : Loc, l.bucket ≠ .wfVersion → w₁.value l = w.value l) :
    Versioned ns name hash wfID w w' stored := by
  cases h with
  | kept last => simp [hempty₁] at last
  | added number new last same =>
    refine .added number (by simp [hempty]) (by rw [last, hempty, hempty₁]) fun l hl hl' => ?_
    rw [same l hl hl', hsame l hl]

/-- The update function has no error, and returns the list to write. -/
def VersionReady (ns name : String) (hash : Bytes) (wfID : String) (w w' : World)
    (r : Except Err WorkflowVersions × Stored) : Prop :=
  ∃ uv : WorkflowVersions, r.1 = .ok uv ∧
    w'.revision ⟨ns, .wfVersion, name⟩ = w.revision ⟨ns, .wfVersion, name⟩ ∧
    Versioned ns name hash wfID w (w'.put ⟨ns, .wfVersion, name⟩ uv) r.2

variable {v : WorkflowVersions}

theorem ends_addVersion {name : String} (hash : Bytes) (wfID : String)
    (hv : w.value ⟨ns, .wfVersion, name⟩ = some v) :
    Ends (env noFault) X (VersionReady ns name hash wfID w) w
      (addVersion ns wf hash v { wfID := wfID }) := by
  have hversions : w.versions ns name = v.version := by rw [World.versions, hv]; rfl
  have hadd : (∀ newest, v.version.getLast? = some newest → newest.sha256 ≠ hash) →
      Ends (env noFault) X (VersionReady ns name hash wfID w) w
      (addNewVersion ns wf hash v { wfID := wfID }) := by
    intro hnew
    refine ends_bind.2 (ends_saveObj.2 ⟨ends_ret.2 ⟨_, rfl, by simp, ?_⟩, nofun⟩)
    refine .added (.ofNat v.version.length + 1) (hversions ▸ hnew) ?_ fun l hl hl' => ?_
    · rw [hversions, World.versions, put_value_self]
      rfl
    · rw [put_value_of_ne _ _ fun h => hl (by rw [h]),
        put_value_of_ne _ _ fun h => hl' (by rw [h])]
  rw [addVersion]
  split
  · rename_i hnone
    exact hadd (by simp [hnone])
  · rename_i newest hnewest
    refine ends_ite.2 ⟨fun hhash => ends_ret.2 ⟨v, rfl, rfl, ?_⟩, fun hne => hadd fun newest' h =>
      ?_⟩
    swap
    · obtain rfl : newest = newest' := Option.mem_unique hnewest h
      exact fun h => hne h.symm
    exact .kept (hversions ▸ hnewest) hhash.symm (put_value_of_eq hv)

/-- **The loop of an update** goes through at its first attempt. -/
theorem ends_updateKVWith {S : Type} {l : Loc} {v : l.Val} {s : S}
    {updateFn : l.Val → S → P (Except Err l.Val × S)} {Q : World → Except Err Unit × S → Prop}
    (hv : w.value l = some v)
    (h : Ends (env noFault) X (fun w' r => ∃ uv, r.1 = .ok uv ∧
      w'.revision l = w.revision l ∧ Q (w'.put l uv) (.ok (), r.2)) w (updateFn v s)) :
    Ends (env noFault) X Q w (updateKVWith l s updateFn) := by
  rw [updateKVWith, ends_loop, Prog.unroll, ends_bind, Prog.bind_eq_bind, ends_bind]
  refine ends_kvGet.2 ⟨fun hnone => by simp [hv] at hnone, fun v' hv' isNil _ => ?_, False.elim⟩
  obtain rfl : v = v' := Option.mem_unique hv hv'
  refine ends_bind.2 (h.mono ?_)
  rintro w' ⟨r, s'⟩ ⟨uv, rfl, hrevision, hQ⟩
  refine ends_bind.2 (ends_kvUpdate.2 ⟨fun _ => ?_, fun hne => absurd hrevision hne, False.elim⟩)
  exact ends_ret.2 (ends_ret.2 hQ)

/-- **An update**: an object that is absent, or has no field set, is written first. -/
theorem ends_updateObjWith {S : Type} {l : Loc} {msg : l.Val} {s : S}
    {updateFn : l.Val → S → P (Except Err l.Val × S)} {Q : World → Except Err Unit × S → Prop}
    (habsent : (w.value l = none ∨ w.value l = some l.bucket.zero) →
      Ends (env noFault) X Q (w.put l msg) (updateKVWith l s updateFn))
    (hstored : ∀ v, w.value l = some v →
      Ends (env noFault) X Q w (updateKVWith l s updateFn)) :
    Ends (env noFault) X Q w (updateObjWith l msg s updateFn) := by
  rw [updateObjWith, Prog.bind_eq_bind, ends_bind]
  refine ends_kvGet.2 ⟨fun hnone => ends_ite.2 ⟨fun _ => ?_, fun h => absurd rfl h⟩,
    fun v hv isNil hnil => ends_ite.2 ⟨fun hzero => ?_, fun _ => hstored v hv⟩, nofun⟩
  · exact ends_bind.2 (ends_saveObj.2 ⟨habsent (.inl hnone), nofun⟩)
  · exact ends_bind.2 (ends_saveObj.2 ⟨habsent (.inr (hnil hzero ▸ hv)), nofun⟩)

/-- The loop that adds the version. -/
theorem ends_updateVersions {name : String} (hash : Bytes) (wfID : String)
    (hv : w.value ⟨ns, .wfVersion, name⟩ = some v) : Ends (env noFault) X
      (fun w' r => r.1 = .ok () ∧ Versioned ns name hash wfID w w' r.2) w
      (updateKVWith ⟨ns, .wfVersion, name⟩ { wfID := wfID }
        (addVersion ns wf hash)) := by
  refine ends_updateKVWith hv ((ends_addVersion hash wfID hv).mono ?_)
  rintro w' r ⟨uv, hr, hrevision, hversioned⟩
  exact ⟨uv, hr, hrevision, rfl, hversioned⟩

/-- **The version of the definition** is found or added. -/
theorem ends_storeVersion (wfID : String) :
    Ends (env noFault) X (fun w' r => ∃ stored, r = .ok stored ∧
        Versioned ns wf.name (getHash wf) wfID w w' stored) w
      (storeVersion getHash ns wf wfID).run := by
  rw [storeVersion, ends_seq, ends_liftM]
  have hloop : Ends (env noFault) X
      (fun w' r => r.1 = .ok () ∧ Versioned ns wf.name (getHash wf) wfID w w' r.2) w
      (updateObjWith ⟨ns, .wfVersion, wf.name⟩ ({} : WorkflowVersions)
        { wfID := wfID } (addVersion ns wf (getHash wf))) := by
    refine ends_updateObjWith (fun habsent => ?_) fun v hv => ends_updateVersions _ _ hv
    have hempty : w.versions ns wf.name = [] := by
      rcases habsent with hnone | hzero
      · rw [World.versions, hnone]
        rfl
      · rw [World.versions, hzero]
        rfl
    refine (ends_updateVersions _ _ (put_value_self ..)).mono ?_
    rintro w' r ⟨hr, hversioned⟩
    refine ⟨hr, hversioned.of_empty hempty ?_ fun l hl => ?_⟩
    · rw [World.versions, put_value_self]
      rfl
    · exact put_value_of_ne _ _ fun h => hl (by rw [h])
  refine hloop.mono ?_
  rintro w' ⟨r, stored⟩ ⟨hr, hversioned⟩
  obtain rfl : r = .ok () := hr
  simpa using hversioned

/-- The receivers under which a message is stored, none if it has none. -/
def storedReceivers (wf : Workflow) (name : String) : MessageReceivers :=
  (wf.messageReceivers.lookup name).getD {}

/-- The messages outside of `rest` are stored with their receivers. The rest of the registry is as
it was. -/
structure MessagesStored (ns : String) (wf : Workflow) (w : World) (rest : List Element)
    (w' : World) : Prop where
  stored : ∀ m ∈ wf.messages, m ∈ rest ∨
    w'.value ⟨ns, .wfMsgTypes, m.name⟩ = some (storedReceivers wf m.name)
  other : ∀ l : Loc, l.bucket ≠ .wfMsgTypes → l.bucket ≠ .wfClientTask → w'.value l = w.value l

variable {msgs : List Element}

theorem MessagesStored.of_store {w' w'' : World} (h : MessagesStored ns wf w msgs w')
    (hstore : w''.store = w'.store) :
    MessagesStored ns wf w msgs w'' where
  stored m hm := by
    rw [value_eq_of_store hstore]
    exact h.stored m hm
  other l hl hl' := (value_eq_of_store hstore l).trans (h.other l hl hl')

theorem MessagesStored.next {w' : World} {m : Element} (h : MessagesStored ns wf w (m :: msgs) w')
    (task ks : String) :
    MessagesStored ns wf w msgs ((w'.put ⟨ns, .wfMsgTypes, m.name⟩ (storedReceivers wf m.name)).put
      ⟨ns, .wfClientTask, task⟩ ks) where
  stored m' hm' := by
    rw [put_value_of_ne _ _ (by simp)]
    by_cases hname : m'.name = m.name
    · rw [hname]
      exact .inr (put_value_self ..)
    · rw [put_value_of_ne _ _ (by simpa using hname)]
      refine (h.stored m' hm').imp_left fun hmem => ?_
      exact (mem_cons.1 hmem).resolve_left fun heq => hname (by rw [heq])
  other l hl hl' := by
    rw [put_value_of_ne _ _ fun h => hl' (by rw [h]),
      put_value_of_ne _ _ fun h => hl (by rw [h])]
    exact h.other l hl hl'

theorem ends_ensureMessageBucket {w' : World} {m : Element}
    (h : MessagesStored ns wf w (m :: msgs) w') : Ends (env noFault) X
      (fun w'' r => r = .ok () ∧ MessagesStored ns wf w msgs w'') w'
      (ensureMessageBucket ns wf m).run := by
  have hnext := fun ks => h.next (wf.name ++ "_" ++ m.name) ks
  simp only [ensureMessageBucket, save, ends_seq, ends_mapError, ends_wrap, ends_kvPut,
    mapError_ok, ends_newId, ends_createConsumer, noFault_iff, false_imp_iff, and_true,
    true_and]
  exact fun ks _ => (hnext ks).of_store rfl

theorem ends_startTimers (wfID key : String) :
    Ends (env noFault) X (fun w' r => r = .ok () ∧ w'.store = w.store) w
      (startTimers ns wf wfID key).run := by
  simp only [startTimers, forEachTimedStartElement, ends_wrap]
  refine Ends.forM (fun _ w' => w'.store = w.store) _ rfl (fun el els w' hw' => ?_)
    fun w' hw' => ⟨rfl, hw'⟩
  have htimed : Subject.timedExecute ≠ .jobUserTaskExecute := by decide
  simp only [ends_seq, ends_now, ends_wrap, ends_publishWorkflowState htimed, mapError_ok,
    ends_pure, noFault_iff, false_imp_iff, and_true]
  exact fun _ _ => hw'

/-- Once the definition has passed its checks, there is no error. -/
theorem ends_announceVersion (wfID : String) :
    Ends (env noFault) X (fun w' r => r = .ok wfID ∧ MessagesStored ns wf w [] w') w
      (announceVersion ns wf wfID).run := by
  simp only [announceVersion, ensureMessageBuckets, ends_seq, ends_wrap, ends_nsKVs,
    noFault_iff, false_imp_iff, and_true]
  have hstart : MessagesStored ns wf w wf.messages w := ⟨fun m hm => .inl hm, fun _ _ _ => rfl⟩
  refine Ends.forM (MessagesStored ns wf w) _ hstart (fun m ms w' h => ?_) fun w' h => ?_
  · refine (ends_ensureMessageBucket h).mono ?_
    rintro w'' r ⟨rfl, hnext⟩
    exact hnext
  · refine ends_mapOrder.2 fun order _ => ?_
    refine Ends.forM (fun _ => MessagesStored ns wf w []) order h (fun key keys w' h => ?_)
      fun w' h => ?_
    · refine (ends_startTimers wfID key).mono ?_
      rintro w'' r ⟨rfl, hstore⟩
      exact h.of_store hstore
    · exact ends_pure.2 ⟨rfl, h⟩

/-! ### A load that goes through -/

/-- Nothing has changed but that some processes are mapped to the workflow. -/
structure OnlyMapped (name : String) (w w' : World) : Prop where
  other : ∀ l : Loc, l.bucket ≠ .wfProcess → w'.value l = w.value l
  process : ∀ ns id, w'.value ⟨ns, .wfProcess, id⟩ = w.value ⟨ns, .wfProcess, id⟩ ∨
    w'.value ⟨ns, .wfProcess, id⟩ = some name

variable {name : String} {w' : World}

theorem OnlyMapped.of_store {w : World} (h : w'.store = w.store) : OnlyMapped name w w' :=
  ⟨fun l _ => value_eq_of_store h l, fun _ _ => .inl (value_eq_of_store h _)⟩

variable {w₁ : World}

theorem OnlyMapped.trans {w₂ w₃ : World} (h : OnlyMapped name w₁ w₂) (h' : OnlyMapped name w₂ w₃) :
    OnlyMapped name w₁ w₃ where
  other l hl := (h'.other l hl).trans (h.other l hl)
  process ns id := by
    rcases h'.process ns id with h' | h'
    · rw [h']
      exact h.process ns id
    · exact .inr h'

theorem OnlyMapped.put (w : World) (name ns id : String) :
    OnlyMapped name w (w.put ⟨ns, .wfProcess, id⟩ name) where
  other l hl := put_value_of_ne _ _ fun h => hl (by rw [h])
  process ns' id' := by
    by_cases h : (⟨ns', .wfProcess, id'⟩ : Loc) = ⟨ns, .wfProcess, id⟩
    · cases h
      exact .inr (put_value_self ..)
    · exact .inl (put_value_of_ne _ _ h)

theorem OnlyMapped.sameSpecs {w : World} (h : OnlyMapped name w w') : SameSpecs w w' :=
  ⟨fun _ _ => h.other _ nofun, fun _ _ => h.other _ nofun⟩

/-- The mapping of every process that passes its check is already there. -/
def AlreadyMapped (lib : Lib) (w : World) (ns : String) (wf : Workflow) : Prop :=
  ∀ key ∈ wf.process.keys, ∀ els, processVerdict lib w ns wf key = .accepted els →
    w.value (mappingLoc ns wf key) = some wf.name

/-- The name of a process or of a message of the definition is taken by another workflow. -/
def World.NameTaken (w : World) (ns : String) (wf : Workflow) : Prop :=
  w.ForeignProcess ns wf ∨ w.ForeignMessage ns wf

/-- What a load of `wf` that returns `id` has done to the registry. The definition after its checks
is `wf'`. -/
structure Loaded (lib : Lib) (getHash : Workflow → Bytes) (ns : String) (wf wf' : Workflow)
    (w w' : World) (id : String) : Prop where
  mapped : ¬ w'.ForeignProcess ns wf
  specs : SameSpecs w w'
  settles : Settles lib w ns wf [] wf'
  newest : ∃ newest, (w'.versions ns wf.name).getLast? = some newest ∧
    newest.sha256 = getHash wf' ∧ newest.id = id
  /-- the version was there already, or it was added -/
  version : (¬ w'.ForeignMessage ns wf ∧
      ∀ l : Loc, l.bucket ≠ .wfProcess → w'.value l = w.value l) ∨
    (id ∉ w.ids ∧ w'.versions ns wf.name ≠ w.versions ns wf.name ∧
      (∀ newest, (w.versions ns wf.name).getLast? = some newest → newest.sha256 ≠ getHash wf') ∧
      ∀ m ∈ wf.messages, w'.value ⟨ns, .wfMsgTypes, m.name⟩ = some (storedReceivers wf m.name))

theorem versions_of_value {w : World}
    (h : w'.value ⟨ns, .wfVersion, name⟩ = w.value ⟨ns, .wfVersion, name⟩) :
    w'.versions ns name = w.versions ns name := by
  rw [World.versions, World.versions, h]

theorem OnlyMapped.not_foreignProcess {w : World} (h : OnlyMapped wf.name w w')
    (hprocess : ¬ w.ForeignProcess ns wf) : ¬ w'.ForeignProcess ns wf := by
  rintro ⟨key, hkey, name, hvalue, hne⟩
  rcases h.process ns key with hsame | hname
  · exact hprocess ⟨key, hkey, name, hsame ▸ hvalue, hne⟩
  · exact hne (Option.mem_unique hvalue hname)

theorem not_foreignProcess_of_same {w : World}
    (h : ∀ l : Loc, l.bucket = .wfProcess → w'.value l = w.value l)
    (hprocess : ¬ w.ForeignProcess ns wf) : ¬ w'.ForeignProcess ns wf := by
  rintro ⟨key, hkey, name, hvalue, hne⟩
  exact hprocess ⟨key, hkey, name, (h _ rfl).symm.trans hvalue, hne⟩

theorem not_foreignMessage_of_same {w : World}
    (h : ∀ l : Loc, l.bucket = .wfMsgTypes → w'.value l = w.value l)
    (hmessage : ¬ w.ForeignMessage ns wf) : ¬ w'.ForeignMessage ns wf := by
  rintro ⟨m, hm, receivers, hvalue, hne⟩
  exact hmessage ⟨m, hm, receivers, (h _ rfl).symm.trans hvalue, hne⟩

/-- The steps of a load, put together: the processes are mapped, then the version is found or added,
and a version that was added is announced. -/
theorem Loaded.of_steps {w w₂ : World} {wfID : String} {stored : Stored} (hfresh : wfID ∉ w.ids)
    (hnames : ¬ w.NameTaken ns wf) (hmapped : OnlyMapped wf.name w w₁)
    (hsettles : Settles lib w ns wf [] wf')
    (hversioned : Versioned ns wf.name (getHash wf') wfID w₁ w₂ stored)
    (hannounced : if stored.newWf then MessagesStored ns wf' w₂ [] w' else w' = w₂) :
    Loaded lib getHash ns wf wf' w w' stored.wfID := by
  have hprocess₁ := hmapped.not_foreignProcess (not_or.1 hnames).1
  have hversions₁ : w₁.versions ns wf.name = w.versions ns wf.name :=
    versions_of_value (hmapped.other _ nofun)
  cases hversioned with
  | @kept newest last hash_eq same =>
    obtain rfl : w' = w₂ := hannounced
    have hversions : w'.versions ns wf.name = w₁.versions ns wf.name := versions_of_value (same _)
    have hsame : ∀ l : Loc, l.bucket ≠ .wfProcess → w'.value l = w.value l := fun l hl =>
      (same l).trans (hmapped.other l hl)
    refine ⟨not_foreignProcess_of_same (fun l _ => same l) hprocess₁, ?_, hsettles,
      ⟨newest, hversions ▸ last, hash_eq, rfl⟩, .inl ⟨?_, hsame⟩⟩
    · exact hmapped.sameSpecs.trans ⟨fun _ _ => same _, fun _ _ => same _⟩
    · exact not_foreignMessage_of_same (fun l hl => hsame l (by simp [hl])) (not_or.1 hnames).2
  | added number new last same =>
    have hstored : MessagesStored ns wf' w₂ [] w' := hannounced
    have hversions : w'.versions ns wf.name =
        w.versions ns wf.name ++ [⟨wfID, getHash wf', number⟩] := by
      rw [versions_of_value (hstored.other _ nofun nofun), last, hversions₁]
    have hother : ∀ l : Loc, l.bucket ≠ .wfVersion → l.bucket ≠ .wf → l.bucket ≠ .wfMsgTypes →
        l.bucket ≠ .wfClientTask → w'.value l = w₁.value l := fun l h₁ h₂ h₃ h₄ =>
      (hstored.other l h₃ h₄).trans (same l h₁ h₂)
    refine ⟨not_foreignProcess_of_same (fun l hl => ?_) hprocess₁, ?_, hsettles,
      ⟨_, by rw [hversions, List.getLast?_concat], rfl, rfl⟩,
      .inr ⟨hfresh, ?_, hversions₁ ▸ new, ?_⟩⟩
    · exact hother l (by simp [hl]) (by simp [hl]) (by simp [hl]) (by simp [hl])
    · exact hmapped.sameSpecs.trans ⟨fun _ _ => hother _ nofun nofun nofun nofun,
        fun _ _ => hother _ nofun nofun nofun nofun⟩
    · rw [hversions]
      simp
    · intro m hm
      have hm' : m ∈ wf'.messages := by rw [hsettles.same]; exact hm
      have hreceivers : storedReceivers wf' m.name = storedReceivers wf m.name := by
        rw [storedReceivers, hsettles.same, storedReceivers]
      rw [← hreceivers]
      exact (hstored.stored m hm').resolve_left not_mem_nil

/-- **A load alone.** It is turned down when a name is taken, before anything is written, or when a
service task fails its check. -/
theorem Ends.load : Ends (env noFault)
      (∃ key ∈ wf.process.keys, processVerdict lib w ns wf key = .panics) (fun w' r => match r with
        | .error _ => w'.store = w.store ∧ w.NameTaken ns wf ∨ ¬ w.NameTaken ns wf ∧
            (AlreadyMapped lib w ns wf → ∀ l, w'.value l = w.value l) ∧
            ∃ key ∈ wf.process.keys, processVerdict lib w ns wf key = .rejected
        | .ok id => ¬ w.NameTaken ns wf ∧ ∃ wf', Loaded lib getHash ns wf wf' w w' id) w
      (loadWorkflowDefinition lib getHash ns wf).run := by
  rw [loadWorkflowDefinition, ends_wrap, storeWorkflow, ends_seq, ends_wrap]
  refine (ends_validateUniqueProcessIdFor wf).mono ?_
  rintro w (e | u) ⟨rfl, hprocess⟩
  · exact .inl ⟨rfl, .inl (by simpa using hprocess)⟩
  refine ends_seq.2 (ends_wrap.2 ((ends_validateUniqueMessageNames wf).mono ?_))
  rintro w (e | u) ⟨rfl, hmessage⟩
  · exact .inl ⟨rfl, .inr (by simpa using hmessage)⟩
  have hnames : ¬ w.NameTaken ns wf := not_or.2 ⟨hprocess.1 rfl, hmessage.1 rfl⟩
  refine ends_seq.2 (ends_nsKVs.2 ⟨ends_seq.2 (ends_newId.2 fun wfID hfresh => ?_), False.elim⟩)
  refine ends_seq.2 ((ends_processServiceTasks (R := fun w' => OnlyMapped wf.name w w' ∧
      (AlreadyMapped lib w ns wf → ∀ l, w'.value l = w.value l))
    keepsStore_ensureServiceTaskConsumer
    (fun hstore hR => ⟨hR.1.trans (.of_store hstore), fun h l =>
      (value_eq_of_store hstore l).trans (hR.2 h l)⟩) (fun _ hR => hR.1.sameSpecs)
    (show OnlyMapped wf.name w (w.issue wfID) ∧ _ from ⟨.of_store rfl, fun _ _ => rfl⟩)
    fun key hkey els hels => mapsTo_createWorkflowProcessMapping fun w' hR =>
      ⟨hR.1.trans (.put ..), fun h l => ?_⟩).mono ?_)
  · -- the mapping that is written is there already
    have hthere := (hR.2 h (mappingLoc ns wf key)).trans (h key hkey els hels)
    exact (put_value_of_eq hthere l).trans (hR.2 h l)
  rintro w₁ (e | wf') ⟨hR, hr⟩
  · exact .inr ⟨hnames, hR.2, hr⟩
  have hname : wf'.name = wf.name := by rw [hr.same]
  refine ends_seq.2 ((ends_storeVersion wfID).mono ?_)
  rintro w₂ r ⟨stored, rfl, hversioned⟩
  rw [hname] at hversioned
  have hloaded {w' : World}
      (h : if stored.newWf then MessagesStored ns wf' w₂ [] w' else w' = w₂) :=
    Loaded.of_steps hfresh.1 hnames hR.1 hr hversioned h
  refine ends_run_ite.2 ⟨fun hnew => (ends_announceVersion stored.wfID).mono ?_, fun hnew => ?_⟩
  · rintro w' r ⟨rfl, hmessages⟩
    exact ⟨hnames, wf', hloaded (by rwa [if_pos hnew])⟩
  · exact ends_pure.2 ⟨hnames, wf', hloaded (by rw [if_neg hnew])⟩

end SharWorkflow
