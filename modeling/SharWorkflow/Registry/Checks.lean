import SharWorkflow.Engine.Alone
import SharWorkflow.Engine.Registry

/-!
# The checks of a definition

What `LoadWorkflow` finds out about a definition before it stores a version, as functions of the
store.

* `World.ForeignProcess`, `World.ForeignMessage`: a name of the definition belongs to another
  workflow.
* `taskVerdict`, `elementsVerdict`: the check of a service task, and of the elements of a process. A
  check accepts, and returns the element with its version and retry behaviour, it rejects, or it
  panics. None of this depends on the order in which the runtime ranges over the transforms of a
  task (`ofCheck_checkTask_perm`).
* `judges_processElements`: the code comes to the verdict, and leaves the store as it is.
-/

namespace SharWorkflow

open Concurrent List World

/-! ### Verdicts -/

/-- What a check comes to. -/
inductive Verdict (α : Type)
  | accepted (a : α)
  | rejected
  | panics

namespace Verdict

variable {α β : Type}

/-- The verdict of a computed check. -/
def ofCheck : Option (Except Err α) → Verdict α
  | none => panics
  | some (.error _) => rejected
  | some (.ok a) => accepted a

/-- One check after another. -/
def andThen (v : Verdict α) (f : α → Verdict β) : Verdict β :=
  match v with
  | accepted a => f a
  | rejected => rejected
  | panics => panics

/-- The result of a program is that of the check. -/
def Explains : Verdict α → Except Err α → Prop
  | accepted a, .ok b => b = a
  | rejected, .error _ => True
  | _, _ => False

@[simp]
theorem explains_accepted (a : α) (r : Except Err α) : (accepted a).Explains r ↔ r = .ok a := by
  cases r <;> simp [Explains]

@[simp]
theorem explains_rejected (r : Except Err α) :
    (rejected : Verdict α).Explains r ↔ ∃ e, r = .error e := by
  cases r <;> simp [Explains]

@[simp]
theorem explains_panics (r : Except Err α) : ¬ (panics : Verdict α).Explains r := by
  cases r <;> exact id

end Verdict

/-! ### The check of a task -/

variable {lib : Lib} {ns : String} {w : World}

/-- The output transforms have the variables of each of them, unless one cannot be read. -/
theorem outputVariables_spec (j : Element) (order : List String) :
    let vars x := lib.getVariables ((j.outputTransform.lookup x).getD "")
    (∃ x ∈ order, ∃ e, vars x = .error e) ∧ (∃ e, outputVariables lib j order = .error e) ∨
      (∀ x ∈ order, ∃ vs, vars x = .ok vs) ∧
        outputVariables lib j order = .ok (order.flatMap fun x => (vars x).toOption.getD []) := by
  induction order with
  | nil => exact .inr ⟨nofun, rfl⟩
  | cons x rest ih =>
    dsimp only at ih ⊢
    rw [outputVariables]
    cases hx : lib.getVariables ((j.outputTransform.lookup x).getD "") with
    | error e => exact .inl ⟨⟨x, mem_cons_self, e, hx⟩, _, rfl⟩
    | ok vars =>
      rcases ih with ⟨⟨y, hy, e, he⟩, e', h⟩ | ⟨hall, h⟩
      · exact .inl ⟨⟨y, mem_cons_of_mem _ hy, e, he⟩, e', by simp [h]⟩
      · exact .inr ⟨forall_mem_cons.2 ⟨⟨vars, hx⟩, hall⟩, by simp [h, hx, Except.toOption]⟩

/-- The variables of the output transforms are the same in every order, and so is whether there is
an error. -/
theorem outputVariables_perm (j : Element) {order order' : List String} (h : order.Perm order') :
    (∃ e e', outputVariables lib j order = .error e ∧ outputVariables lib j order' = .error e') ∨
      ∃ vs vs', outputVariables lib j order = .ok vs ∧ outputVariables lib j order' = .ok vs' ∧
        vs.Perm vs' := by
  rcases outputVariables_spec j order with ⟨⟨x, hx, e, he⟩, f, hf⟩ | ⟨hall, hvs⟩ <;>
    rcases outputVariables_spec j order' with ⟨⟨x', hx', e', he'⟩, f', hf'⟩ | ⟨hall', hvs'⟩
  · exact .inl ⟨f, f', hf, hf'⟩
  · obtain ⟨vs, hok⟩ := hall' x (h.mem_iff.1 hx)
    cases he.symm.trans hok
  · obtain ⟨vs, hok⟩ := hall x' (h.mem_iff.2 hx')
    cases he'.symm.trans hok
  · exact .inr ⟨_, _, hvs, hvs', h.flatMap_right _⟩

theorem checkParameters_error (spec : TaskSpec) (j : Element) (e : Err) :
    ∃ e', checkParameters spec j (.error e) = .error e' := by
  simp only [checkParameters]
  split
  · exact ⟨_, rfl⟩
  · exact ⟨e, rfl⟩

/-- Only the set of the variables matters to the check of the parameters. -/
theorem checkParameters_perm (spec : TaskSpec) (j : Element) {vs vs' : List String}
    (h : vs.Perm vs') : (∃ e e', checkParameters spec j (.ok vs) = .error e ∧
        checkParameters spec j (.ok vs') = .error e') ∨
      checkParameters spec j (.ok vs) = .ok vs ∧ checkParameters spec j (.ok vs') = .ok vs' := by
  have hcontains : (fun name => vs.contains name) = fun name => vs'.contains name :=
    funext fun name => by simp [h.mem_iff]
  simp only [checkParameters, hcontains]
  split
  · exact .inl ⟨_, _, rfl, rfl⟩
  · split
    · exact .inl ⟨_, _, rfl, rfl⟩
    · exact .inr ⟨rfl, rfl⟩

theorem checkExceeded_perm (errors : List Error) (j : Element) {vs vs' : List String}
    (h : vs.Perm vs') (exceeded : DefaultRetryExceededBehaviour) :
    checkExceeded errors j vs exceeded = checkExceeded errors j vs' exceeded := by
  have hcontains : vs.contains exceeded.variable_ = vs'.contains exceeded.variable_ := by
    simp [h.mem_iff]
  simp only [checkExceeded, hcontains]

open Verdict

/-- **The verdict on a task does not depend on the order** in which its transforms are taken. -/
theorem ofCheck_checkTask_perm (errors : List Error) (spec : TaskSpec) (j : Element)
    {order order' : List String} (h : order.Perm order') :
    ofCheck (checkTask lib errors spec j order) =
      ofCheck (checkTask lib errors spec j order') := by
  simp only [checkTask]
  rcases @outputVariables_perm lib j _ _ h with ⟨e, e', he, he'⟩ | ⟨vs, vs', hvs, hvs', hperm⟩
  · obtain ⟨f, hf⟩ := checkParameters_error spec j e
    obtain ⟨f', hf'⟩ := checkParameters_error spec j e'
    rw [he, he', hf, hf']
    rfl
  · rw [hvs, hvs']
    rcases checkParameters_perm spec j hperm with ⟨e, e', he, he'⟩ | ⟨hok, hok'⟩
    · rw [he, he']
      rfl
    · rw [hok, hok']
      simp only [checkExceeded_perm errors j hperm]

/-- The verdict on a service task, by what the store holds of its specification. -/
def taskVerdict (lib : Lib) (w : World) (ns : String) (errors : List Error) (j : Element) :
    Verdict Element :=
  match w.value ⟨ns, .wfTaskSpecVer, j.execute⟩ with
  | none => .rejected
  | some versions =>
    match (versions : List String).getLast? with
    | none => .panics
    | some uid =>
      match w.value ⟨ns, .wfTaskSpec, uid⟩ with
      | none => .rejected
      | some spec => .ofCheck (checkTask lib errors spec { j with version := some uid }
          j.outputTransform.keys)

/-- The verdict on an element. -/
def elementVerdict (lib : Lib) (w : World) (ns : String) (errors : List Error) (j : Element) :
    Verdict Element :=
  if j.type = .serviceTask then taskVerdict lib w ns errors j else .accepted j

/-- The verdict on the elements of a process. -/
def elementsVerdict (lib : Lib) (w : World) (ns : String) (errors : List Error) :
    List Element → Verdict (List Element)
  | [] => .accepted []
  | j :: rest =>
    (elementVerdict lib w ns errors j).andThen fun j =>
      (elementsVerdict lib w ns errors rest).andThen fun rest => .accepted (j :: rest)

/-! ### The checks of the code -/

variable {X : Prop}

@[simp]
theorem ends_createConsumer {durable : String} {filter : Subject}
    {Q : World → Except Err Unit → Prop} {F : Op → Prop} :
    Ends (env F) X Q w (createConsumer durable filter).run ↔
      Q (w.createConsumer durable) (.ok ()) ∧
        (F (.createConsumer durable filter) → ∀ text, Q w (.error (.nats text))) :=
  (ends_perform (o := .createConsumer durable filter) nofun).trans forall_outcome

@[simp]
theorem World.createConsumer_store (w : World) (durable : String) :
    (w.createConsumer durable).store = w.store := rfl

variable {w w' : World}

theorem value_eq_of_store (h : w'.store = w.store) (l : Loc) : w'.value l = w.value l := by
  rw [World.value, World.value, h]

/-- The two worlds hold the same task specifications. -/
structure SameSpecs (w w' : World) : Prop where
  versions : ∀ ns name, w'.value ⟨ns, .wfTaskSpecVer, name⟩ = w.value ⟨ns, .wfTaskSpecVer, name⟩
  specs : ∀ ns uid, w'.value ⟨ns, .wfTaskSpec, uid⟩ = w.value ⟨ns, .wfTaskSpec, uid⟩

theorem SameSpecs.of_store (h : w'.store = w.store) : SameSpecs w w' :=
  ⟨fun _ _ => value_eq_of_store h _, fun _ _ => value_eq_of_store h _⟩

theorem SameSpecs.symm (h : SameSpecs w w') : SameSpecs w' w :=
  ⟨fun ns name => (h.versions ns name).symm, fun ns uid => (h.specs ns uid).symm⟩

theorem elementsVerdict_of_sameSpecs (h : SameSpecs w w') (errors : List Error)
    (els : List Element) :
    elementsVerdict lib w' ns errors els = elementsVerdict lib w ns errors els := by
  induction els with
  | nil => rfl
  | cons j rest ih =>
    simp only [elementsVerdict, elementVerdict, taskVerdict, h.versions, h.specs, ih]

/-- The function ensures a consumer, or does nothing: it does not fail, and leaves the store as it
is. -/
def KeepsStore (svcTaskConsFn : String → Act Unit) : Prop :=
  ∀ (X : Prop) (uid : String) (w : World),
    Ends (env noFault) X (fun w' r => w'.store = w.store ∧ r = .ok ()) w
      (svcTaskConsFn uid).run

theorem keepsStore_ensureServiceTaskConsumer : KeepsStore (ensureServiceTaskConsumer ns) := by
  intro X uid w
  simp [ensureServiceTaskConsumer, ends_wrap]

variable {svcTaskConsFn : String → Act Unit}

/-- The check comes to the verdict, and leaves the store as it is. It panics only when the verdict
is that it does. -/
def Judges {α : Type} (w : World) (verdict : Verdict α) (x : Act α) : Prop :=
  Ends (env noFault) (verdict = .panics)
    (fun w' r => w'.store = w.store ∧ verdict.Explains r) w x.run

/-- One check after another. -/
theorem Judges.seq {α β : Type} {verdict : Verdict α} {f : α → Verdict β} {x : Act α}
    {k : α → Act β} (hx : Judges w verdict x)
    (hk : ∀ a w', w'.store = w.store → Judges w' (f a) (k a)) :
    Judges w (verdict.andThen f) (x >>= k) := by
  refine ends_seq.2 ((hx.imp fun h => by rw [h]; rfl).mono ?_)
  rintro w₁ r ⟨hstore, hr⟩
  cases verdict with
  | panics => exact absurd hr (explains_panics r)
  | rejected =>
    obtain ⟨e, rfl⟩ := (explains_rejected r).1 hr
    exact ⟨hstore, trivial⟩
  | accepted a =>
    obtain rfl := (explains_accepted a r).1 hr
    exact (hk a w₁ hstore).mono fun w₂ r h => ⟨h.1.trans hstore, h.2⟩

section

variable (hcons : KeepsStore svcTaskConsFn) (errors : List Error)
include hcons errors

/-- **The check of a service task.** -/
theorem judges_processServiceTask (j : Element) :
    Judges w (taskVerdict lib w ns errors j)
      (processServiceTask lib ns svcTaskConsFn errors j) := by
  simp only [Judges, processServiceTask, taskUID, getTaskSpecUID, getTaskSpecVersions,
    getTaskSpecByUID, ends_seq, ends_attempt, ends_wrap, ends_loadFrom ⟨_, .wfTaskSpecVer, _⟩,
    ends_loadFrom ⟨_, .wfTaskSpec, _⟩]
  cases hversions : w.value ⟨ns, .wfTaskSpecVer, j.execute⟩ with
  | none => simp [taskVerdict, hversions]
  | some versions =>
    cases huid : (versions : List String).getLast? with
    | none => simp [taskVerdict, hversions, huid]
    | some uid =>
      have hne : (versions : List String) ≠ [] := fun h => by simp [h] at huid
      cases hspec : w.value ⟨ns, .wfTaskSpec, uid⟩ with
      | none => simp [taskVerdict, hversions, huid, hspec, hne]
      | some spec =>
        have hverdict : ∀ order, order.Perm j.outputTransform.keys →
            taskVerdict lib w ns errors j =
              .ofCheck (checkTask lib errors spec { j with version := some uid } order) := by
          intro order hperm
          rw [ofCheck_checkTask_perm _ _ _ hperm]
          simp [taskVerdict, hversions, huid, hspec]
        simp only [ends_pure, ends_deref, huid, hspec, ends_mapOrder, ends_ofExcept,
          reduceCtorEq, false_imp_iff, true_and, Option.some.injEq, forall_eq', mapError_ok]
        intro order hperm
        rw [hverdict order hperm]
        cases checkTask lib errors spec { j with version := some uid } order with
        | none => simp [ofCheck]
        | some r =>
          cases r with
          | error e => simp [ofCheck]
          | ok j' =>
            simp only [Option.some.injEq, forall_eq']
            refine ⟨by rintro ⟨⟩, (hcons _ uid w).mono ?_⟩
            rintro w' _ ⟨hstore, rfl⟩
            simp [ofCheck, hstore]

/-- An element that is no service task is accepted. -/
theorem judges_processElement (j : Element) :
    Judges w (elementVerdict lib w ns errors j) (processElement lib ns svcTaskConsFn errors j) := by
  by_cases hj : j.type = .serviceTask
  · simpa only [elementVerdict, processElement, hj, if_true] using
      judges_processServiceTask hcons errors j
  · simp [Judges, elementVerdict, processElement, hj]

/-- **The check of the elements of a process.** -/
theorem judges_processElements (els : List Element) : Judges w (elementsVerdict lib w ns errors els)
      (processElements lib ns svcTaskConsFn errors els) := by
  induction els generalizing w with
  | nil => simp [Judges, processElements, elementsVerdict]
  | cons j rest ih =>
    refine (judges_processElement hcons errors j).seq fun j' w₁ hstore => ?_
    have hrest := ih (w := w₁)
    rw [elementsVerdict_of_sameSpecs (.of_store hstore)] at hrest
    exact hrest.seq fun rest' w₂ _ => ends_pure.2 ⟨rfl, (explains_accepted _ _).2 rfl⟩

end

/-- The verdict on the process under the given key. -/
def processVerdict (lib : Lib) (w : World) (ns : String) (wf : Workflow) (key : String) :
    Verdict (List Element) :=
  elementsVerdict lib w ns wf.errors ((wf.process.lookup key).getD {}).elements

/-! ### Names -/

/-- A process of the definition is mapped to another workflow. -/
def World.ForeignProcess (w : World) (ns : String) (wf : Workflow) : Prop :=
  ∃ processId ∈ wf.process.keys, ∃ name : String,
    w.value ⟨ns, .wfProcess, processId⟩ = some name ∧ name ≠ wf.name

/-- A message of the definition belongs to another workflow. -/
def World.ForeignMessage (w : World) (ns : String) (wf : Workflow) : Prop :=
  ∃ m ∈ wf.messages, ∃ receivers : MessageReceivers,
    w.value ⟨ns, .wfMsgTypes, m.name⟩ = some receivers ∧
      receivers.associatedWorkflowName ≠ wf.name

/-- What `foreignProcess` returns. -/
def foreignName (w : World) (ns wfName processId : String) : Option (String × String) :=
  match w.value ⟨ns, .wfProcess, processId⟩ with
  | none => none
  | some name => if (name : String) = wfName then none else some (processId, name)

theorem ends_foreignProcess (wfName processId : String) : Ends (env noFault) X
      (fun w' r => w' = w ∧ r = .ok (foreignName w ns wfName processId)) w
      (foreignProcess ns wfName processId).run := by
  simp only [foreignProcess, ends_seq, ends_attempt]
  refine (@ends_kvGet _ X w ⟨ns, .wfProcess, processId⟩ _).2 ⟨fun h => ?_, fun name h _ _ => ?_,
    False.elim⟩
  · simp [foreignName, h]
  · simp [foreignName, h]

theorem foreignName_filterMap_eq_nil {wf : Workflow} {order : List String}
    (hperm : order.Perm wf.process.keys) :
    (order.map (foreignName w ns wf.name)).filterMap id = [] ↔ ¬ w.ForeignProcess ns wf := by
  simp only [filterMap_eq_nil_iff, mem_map, id, forall_exists_index, and_imp,
    forall_apply_eq_imp_iff₂, World.ForeignProcess, not_exists, not_and, ne_eq, not_not,
    hperm.mem_iff]
  refine forall_congr' fun processId => imp_congr_right fun _ => ?_
  rw [foreignName]
  split
  · simp [*]
  · rename_i name hname
    constructor
    · intro h name' hname'
      obtain rfl : name = name' := Option.mem_unique hname hname'
      simpa using h
    · intro h
      simp [h name hname]

/-- The check of the process names fails exactly when one is taken. -/
theorem ends_validateUniqueProcessIdFor (wf : Workflow) : Ends (env noFault) X
      (fun w' r => w' = w ∧ (r = .ok () ↔ ¬ w.ForeignProcess ns wf)) w
      (validateUniqueProcessIdFor ns wf).run := by
  simp only [validateUniqueProcessIdFor, ends_seq, ends_nsKVs, ends_mapOrder,
    noFault_iff, false_imp_iff, and_true]
  intro order hperm
  refine (ends_mapM order (ends_foreignProcess wf.name)).mono ?_
  rintro w r ⟨rfl, rfl⟩
  simp only [ends_run_ite, ends_pure, ends_seq, ends_mapOrder, ends_throw]
  have hnil := @foreignName_filterMap_eq_nil ns w wf order hperm
  refine ⟨fun h => ⟨trivial, by simpa using hnil.1 h⟩, fun h _ _ => ⟨trivial, ?_⟩⟩
  simpa using fun h' => h (hnil.2 h')

/-- What `foreignMessage` returns. -/
def foreignMessageName (w : World) (ns wfName : String) (m : Element) : Option String :=
  match w.value ⟨ns, .wfMsgTypes, m.name⟩ with
  | none => none
  | some receivers =>
    if MessageReceivers.associatedWorkflowName receivers = wfName then none else some m.name

theorem ends_foreignMessage (wfName : String) (m : Element) : Ends (env noFault) X
      (fun w' r => w' = w ∧ r = .ok (foreignMessageName w ns wfName m)) w
      (foreignMessage ns wfName m).run := by
  simp only [foreignMessage, ends_seq, ends_attempt]
  refine (@ends_loadObj _ X w ⟨ns, .wfMsgTypes, m.name⟩ _).2 ⟨fun h => ?_, fun receivers h => ?_,
    False.elim⟩
  · simp [foreignMessageName, h]
  · simp [foreignMessageName, h]

theorem foreignMessageName_filterMap_eq_nil {wf : Workflow} :
    (wf.messages.map (foreignMessageName w ns wf.name)).filterMap id = [] ↔
      ¬ w.ForeignMessage ns wf := by
  simp only [filterMap_eq_nil_iff, mem_map, id, forall_exists_index, and_imp,
    forall_apply_eq_imp_iff₂, World.ForeignMessage, not_exists, not_and, ne_eq, not_not]
  refine forall_congr' fun m => imp_congr_right fun _ => ?_
  rw [foreignMessageName]
  split
  · simp [*]
  · rename_i receivers hreceivers
    constructor
    · intro h receivers' hreceivers'
      obtain rfl : receivers = receivers' := Option.mem_unique hreceivers hreceivers'
      simpa using h
    · intro h
      simp [h receivers hreceivers]

/-- The check of the message names fails exactly when one is taken. -/
theorem ends_validateUniqueMessageNames (wf : Workflow) : Ends (env noFault) X
      (fun w' r => w' = w ∧ (r = .ok () ↔ ¬ w.ForeignMessage ns wf)) w
      (validateUniqueMessageNames ns wf).run := by
  simp only [validateUniqueMessageNames, ends_seq, ends_nsKVs, noFault_iff,
    false_imp_iff, and_true]
  refine (ends_mapM wf.messages (ends_foreignMessage wf.name)).mono ?_
  rintro w r ⟨rfl, rfl⟩
  have hnil := @foreignMessageName_filterMap_eq_nil ns w wf
  rw [← dedup_eq_nil] at hnil
  refine ends_mapOrder.2 fun order _ => ?_
  simp only [ends_run_ite, ends_pure, ends_throw]
  refine ⟨fun h => ⟨trivial, by simpa using hnil.1 h⟩, fun h => ⟨trivial, ?_⟩⟩
  simpa using fun h' => h (hnil.2 h')

end SharWorkflow
