import SharWorkflow.Registry.Soundness

/-!
# The lists of the registry

Loads, switches and specifications that run side by side write the lists of versions without a lock,
and a list that is written for the first time may wipe out another one. But whatever the
interleaving, and whichever calls fail, **a list is always in order** (`registry_in_order`): the
versions of a workflow are numbered from one on, and what a list names is stored. A definition or a
specification is stored before the list names it, and nothing is ever deleted.

* `ListedIn`: what a list must be like, for given locations at which something is stored.
* `listFootprint`: writes that keep the lists in order.
-/

namespace SharWorkflow

open Concurrent Discipline World

/-- The versions are numbered from one on. -/
def WorkflowVersions.Numbered (v : WorkflowVersions) : Prop :=
  ∀ (k : Nat) (ver : WorkflowVersion), v.version[k]? = some ver → ver.number = .ofNat (k + 1)

/-- A list is in order where something is stored at the locations `known`. -/
def ListedIn (known : Loc → Prop) : (l : Loc) → l.Val → Prop
  | ⟨ns, .wfVersion, _⟩, v => WorkflowVersions.Numbered v ∧
      ∀ ver ∈ WorkflowVersions.version v, known ⟨ns, .wf, ver.id⟩
  | ⟨ns, .wfTaskSpecVer, _⟩, (ids : List String) => ∀ uid ∈ ids, known ⟨ns, .wfTaskSpec, uid⟩
  | _, _ => True

theorem ListedIn.mono {known known' : Loc → Prop} (hknown : ∀ l, known l → known' l) {l : Loc}
    {v : l.Val} (h : ListedIn known l v) : ListedIn known' l v := by
  obtain ⟨ns, b, key⟩ := l
  cases b with
  | wfVersion => exact ⟨h.1, fun ver hver => hknown _ (h.2 ver hver)⟩
  | wfTaskSpecVer => exact fun uid huid => hknown _ (h uid huid)
  | _ => trivial

/-- The lists of all namespaces are in order. -/
def World.InOrder (w : World) : Prop :=
  ∀ l v, w.value l = some v → ListedIn (fun l => w.value l ≠ none) l v

/-- The lists stay in order under these writes, where something is stored at the locations `known`
by the end of the run. -/
def listFootprint (known : Loc → Prop) : Footprint where
  reads _ := True
  writes l v := ∃ u, v = some u ∧ ListedIn known l u
  answers
    | .get l, r => ∀ entry, r = .ok entry → ListedIn known l entry.value
    | .put l _, r => r = .ok () → known l
    | _, _ => True

variable {known : Loc → Prop} {lib : Lib} {getHash : Workflow → Bytes} {ns : String}

theorem WorkflowVersions.Numbered.append {v : WorkflowVersions} (h : v.Numbered) (id : String)
    (hash : Bytes) : WorkflowVersions.Numbered { v with
      version := v.version ++ [⟨id, hash, Int32.ofNat v.version.length + 1⟩] } := by
  intro k ver hver
  rw [List.getElem?_append] at hver
  split at hver
  · exact h k ver hver
  · obtain ⟨hk, rfl⟩ := List.getElem?_eq_some_iff.1 hver
    have hlength : k = v.version.length := by simp at hk; omega
    simp [hlength]

theorem loadReach_listed (name : String) :
    LoadReach (listFootprint known) ns name (fun _ => True) fun _ => True where
  reads _ _ _ := trivial
  issued _ _ := trivial
  first := .inl ⟨_, rfl, by simp [WorkflowVersions.Numbered], by simp⟩
  found entry _ hentry _ := ⟨⟨_, rfl, hentry entry rfl⟩, trivial⟩
  added entry id wf hash _ hentry hput := by
    obtain ⟨hnumbered, hknown⟩ := hentry entry rfl
    refine ⟨_, rfl, hnumbered.append id hash, ?_⟩
    rw [List.forall_mem_append, List.forall_mem_singleton]
    exact ⟨hknown, hput rfl⟩
  definition _ _ _ _ := ⟨_, rfl, trivial⟩
  messageType _ _ := ⟨_, rfl, trivial⟩
  clientTask _ _ := ⟨_, rfl, trivial⟩

/-- The calls of an operation on the registry. -/
def RegistryOp.calls (lib : Lib) (getHash : Workflow → Bytes)
    (createUID : TaskSpec → Except Err String) (ns : String) : RegistryOp → P Unit
  | .loadWorkflow wf => (loadWorkflowDefinition lib getHash ns wf).run.bind fun _ => .ret ()
  | .enableWorkflow name => (SharWorkflow.enableWorkflow ns name).run.bind fun _ => .ret ()
  | .disableWorkflow name => (SharWorkflow.disableWorkflow ns name).run.bind fun _ => .ret ()
  | .putTaskSpec type spec =>
    (SharWorkflow.putTaskSpec createUID ns type spec).run.bind fun _ => .ret ()

theorem touches_makeExecutable_listed (name : String) (disabled : Bool) :
    Touches (listFootprint known) (makeExecutable ns name disabled) := by
  refine (yields_kvsFor trivial).wrap.andThen fun _ =>
    Yields.andThen (yields_updateObj trivial ?_ ?_).wrap fun _ => yields_pure trivial
  · rintro entry uv rev hentry ⟨⟩
    exact ⟨_, rfl, hentry entry rfl⟩
  · exact .inl ⟨_, rfl, by simp [WorkflowVersions.Numbered], by simp⟩

theorem touches_putTaskSpec_listed (createUID : TaskSpec → Except Err String) (type : String)
    (spec : TaskSpec) : Touches (listFootprint known) (putTaskSpec createUID ns type spec) := by
  refine touches_putTaskSpec (fun uid => ⟨_, rfl, trivial⟩) trivial (.inl ⟨_, rfl, ?_⟩) ?_
  · exact fun _ h => absurd h List.not_mem_nil
  -- the list names the specification once it is stored
  · refine fun uid entry hsaved hentry => ⟨_, rfl, ?_⟩
    exact List.forall_mem_append.2 ⟨hentry entry rfl, List.forall_mem_singleton.2 (hsaved rfl)⟩

theorem ensures_calls {createUID : TaskSpec → Except Err String} (op : RegistryOp) :
    (listFootprint known).discipline.Ensures (fun _ => True)
      (op.calls lib getHash createUID ns) := by
  cases op with
  | loadWorkflow wf =>
    exact Ensures.bind (touches_loadWorkflowDefinition (loadReach_listed wf.name)
      (fun _ => trivial) (fun _ _ _ _ => ⟨_, rfl, trivial⟩) fun _ _ _ _ => trivial)
      fun _ _ => ensures_ret trivial
  | enableWorkflow name | disableWorkflow name =>
    exact Ensures.bind (touches_makeExecutable_listed name _) fun _ _ => ensures_ret trivial
  | putTaskSpec type spec =>
    exact Ensures.bind (touches_putTaskSpec_listed createUID type spec) fun _ _ =>
      ensures_ret trivial

/-! ### Runs -/

variable {ι : Type} [DecidableEq ι] {F : Op → Prop} {createUID : TaskSpec → Except Err String}
  {space : ι → String} {op : ι → RegistryOp} {w : World} {c : Config ι Op Ans World Unit}

/-- Operations side by side, each in its namespace. -/
def registryOps (lib : Lib) (getHash : Workflow → Bytes) (createUID : TaskSpec → Except Err String)
    (space : ι → String) (op : ι → RegistryOp) (i : ι) : P Unit :=
  (op i).calls lib getHash createUID (space i)

variable (known) in
/-- The lists are in order if something is known to be stored where anything was written. -/
theorem listedIn_of_run
    (hrun : Run (env F) (.start w (registryOps lib getHash createUID space op)) c)
    (hknown : ∀ e ∈ c.trace, ∀ l, isStoreAt l e.op e.answer = true → known l)
    (hw : ∀ l v, w.value l = some v → ListedIn known l v) :
    (∀ l v, c.state.value l = some v → ListedIn known l v) ∧
      ∀ e ∈ c.trace, e.op.within (listFootprint known) := by
  refine Keeps.invariant (D := (listFootprint known).discipline)
    (J := fun w t => (∀ l v, w.value l = some v → ListedIn known l v) ∧
      ∀ e ∈ t, e.op.within (listFootprint known))
    (fun i => ensures_calls (op i)) hrun ⟨hw, by simp⟩ ?_
  rintro ⟨i, s, o, r⟩ he t s' hmay ⟨hlisted, hwithin⟩ henv
  refine ⟨?_, fun l v hv => ?_, List.forall_mem_cons.2 ⟨hmay, hwithin⟩⟩
  · cases o with
    | get l =>
      intro entry hentry
      rcases henv with ⟨-, ⟨-, hr⟩ | ⟨v, isNil, hv, -, hr⟩ | ⟨-, text, hr⟩⟩ <;>
        cases hr.symm.trans hentry
      exact hlisted l v hv
    | put l v =>
      rintro rfl
      exact hknown _ he l (decide_eq_true rfl)
    | _ => trivial
  · rcases hmay.value henv l with hsame | ⟨u, hu, hlist⟩
    · exact hlisted l v (hsame ▸ hv)
    · exact Option.mem_unique hv hu ▸ hlist

/-- **The lists of the registry stay in order**, in every run of operations on it. -/
theorem registry_in_order
    (hrun : Run (env F) (.start w (registryOps lib getHash createUID space op)) c)
    (hw : w.InOrder) : c.state.InOrder := by
  -- nothing is deleted, so what is stored at some time is stored at the end
  have hwithin := (listedIn_of_run (fun _ => True) hrun (fun _ _ _ _ => trivial)
    fun l v hv => ListedIn.mono (fun _ _ => trivial) (hw l v hv)).2
  have hkeep (l : Loc) : ∀ e ∈ c.trace, ∀ s', e.before.value l ≠ none →
      env F e.op e.before e.answer s' → s'.value l ≠ none := by
    intro e he s' hvalue henv
    refine value_ne_none_of_env henv (Bool.eq_false_of_not_eq_true fun hdelete => ?_) hvalue
    obtain ⟨u, hu, -⟩ := (hwithin e he).deletes hdelete
    cases hu
  refine (listedIn_of_run (fun l => c.state.value l ≠ none) hrun ?_ ?_).1
  · intro e he l hstore
    obtain ⟨later, earlier, htrace⟩ := List.append_of_mem he
    refine (hrun.holds_since (S := fun s => s.value l ≠ none) htrace
      (fun s' henv => value_of_store henv hstore) fun e' he' => hkeep l e' ?_).1
    simp [htrace, he']
  · intro l v hv
    refine ListedIn.mono (fun l' hl' => ?_) (hw l v hv)
    exact (hrun.holds_always (S := fun s => s.value l' ≠ none) hl' (hkeep l')).1

/-- A load of a workflow, and a switch. -/
def switchedLoad : Bool → P Unit :=
  registryOps (constLib ∅) (fun _ => []) (fun _ => .ok "") (fun _ => "default") fun second =>
    if second then .disableWorkflow "orders" else .loadWorkflow { name := "orders" }

/-- The switch finds no list, and writes an empty one after the load has written the list. -/
theorem registry_in_order_switched : ∃ c, Run (env noFault) (.start {} switchedLoad) c ∧
      (∀ i, c.threads i = .ret ()) ∧ c.state.versions "default" "orders" = [] ∧
      c.state.InOrder := by
  obtain ⟨c, hrun, hreturned, hempty⟩ := exists_run_of_reaches noFault
    (.start {} switchedLoad) (List.replicate 2 (true, .ok) ++ List.replicate 15 (false, .ok) ++
      List.replicate 4 (true, .ok))
    (fun c => (∀ i, c.threads i = .ret ()) ∧ c.state.versions "default" "orders" = [])
    (by decide +kernel)
  exact ⟨c, hrun, hreturned, hempty, registry_in_order hrun fun l v hv => nomatch hv⟩

end SharWorkflow
