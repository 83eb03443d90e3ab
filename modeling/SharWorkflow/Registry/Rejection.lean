import SharWorkflow.Registry.Loading

/-!
# Definitions that are rejected

A definition that `LoadWorkflow` rejects should leave the registry as it was.

The names of the definition are checked before anything is written, but its processes are checked
one by one, and each is mapped to the workflow before the next one is checked. So a definition with
a process that fails its check and another one that passes may leave the mapping of the latter
behind, depending on the order in which the runtime ranges over the processes. The registry is left
as it was in every case exactly when a name check rejects the definition, or no process fails, or
the mapping of each process that passes is there already (`rejected_load_keeps_registry_iff`).
-/

namespace SharWorkflow

open Concurrent List World

variable {lib : Lib} {getHash : Workflow → Bytes} {ns : String} {w : World} {wf : Workflow}

/-! ### The registry after a rejected definition -/

/-- The buckets that make up the registry of workflows. -/
def registryBuckets : List Bucket := [.wfProcess, .wfVersion, .wf, .wfMsgTypes]

/-- The registry holds the same objects. -/
def SameRegistry (w w' : World) : Prop :=
  ∀ l : Loc, l.bucket ∈ registryBuckets → w'.value l = w.value l

/-- No process fails its check. -/
def NoneRejected (lib : Lib) (w : World) (ns : String) (wf : Workflow) : Prop :=
  ∀ key ∈ wf.process.keys, processVerdict lib w ns wf key ≠ .rejected

theorem Can.wrap {F : Op → Prop} {α : Type} {Q : World → Except Err α → Prop} {text : String}
    {x : Act α} (h : Can (env F) (fun w r => Q w (r.mapError (.wrap text))) w x.run) :
    Can (env F) Q w (Act.wrap text x).run := by
  refine Can.bind h ?_
  rintro w' (e | a) hr <;> exact can_ret.2 hr

/-- A program that succeeds, alone, is followed by what comes next. -/
theorem Can.next {α β : Type} {x : Act α} {k : α → Act β} {M : World → α → Prop}
    {Q : World → Except Err β → Prop}
    (hx : Ends (env noFault) False (fun w r => ∃ a, r = .ok a ∧ M w a) w x.run)
    (hk : ∀ w a, M w a → Can (env noFault) Q w (k a).run) :
    Can (env noFault) Q w (x >>= k).run := by
  refine Can.seq hx.can (fun w a h => ?_) fun w e h => ?_
  · obtain ⟨_, ⟨⟩, h⟩ := h
    exact hk w a h
  · obtain ⟨_, ⟨⟩, -⟩ := h

/-- A map may be ranged over in any order. -/
theorem Can.mapOrder {F : Op → Prop} {keys order : List String}
    {Q : World → Except Err (List String) → Prop} (hperm : order.Perm keys) (h : Q w (.ok order)) :
    Can (env F) Q w (mapOrder keys).run :=
  have hanswer : env F (.mapOrder keys) w order w := ⟨rfl, hperm⟩
  Can.call hanswer (can_ret.2 h)

/-- With one process that passes its check and one that fails it, the first may be mapped before
the second is checked. -/
theorem Can.mapAndFail {g b : String} {els : List Element} (hg : g ∈ wf.process.keys)
    (hb : b ∈ wf.process.keys) (haccepted : processVerdict lib w ns wf g = .accepted els)
    (hrejected : processVerdict lib w ns wf b = .rejected) {w₁ : World}
    (hsame : w₁.store = w.store) :
    Can (env noFault) (fun w' r => (∃ e, r = .error e) ∧ w'.value (mappingLoc ns wf g) =
      some wf.name) w₁ (processServiceTasks lib ns (ensureServiceTaskConsumer ns)
      (createWorkflowProcessMapping ns) wf).run := by
  have hne : b ≠ g := by
    rintro rfl
    rw [haccepted] at hrejected
    cases hrejected
  have hb' : b ∈ wf.process.keys.erase g := (mem_erase_of_ne hne).2 hb
  -- the order in which the two come first
  have hperm : (g :: b :: (wf.process.keys.erase g).erase b).Perm wf.process.keys :=
    ((perm_cons_erase hg).trans ((perm_cons_erase hb').cons g)).symm
  have hnodup := hperm.nodup_iff.2 wf.process.keys_nodup
  refine Can.seq (M := fun w' r => w' = w₁ ∧ r = .ok _) (Can.mapOrder hperm ⟨rfl, rfl⟩) ?_
    fun _ _ h => by simp at h
  rintro w₁' order ⟨rfl, horder⟩
  cases horder
  rw [foldlM_cons]
  have hstart : Settles lib w ns wf _ wf := .start hperm
  have hpass := ((ends_processTasks (R := fun w' => w'.value (mappingLoc ns wf g) = some wf.name ∧
      SameSpecs w w') (@keepsStore_ensureServiceTaskConsumer ns) (.of_store hsame)
    hstart hnodup fun els' _ => mapsTo_createWorkflowProcessMapping fun w' hstore =>
      ⟨put_value_self .., (SameSpecs.of_store (hstore.trans hsame)).trans
        ⟨fun _ _ => put_value_of_ne _ _ (by simp), fun _ _ => put_value_of_ne _ _ (by simp)⟩⟩).imp
    fun h => by simp [haccepted] at h).can
  refine Can.seq hpass (fun w₂ wf' h => ?_) fun w₂ e h => by simp [haccepted] at h
  obtain ⟨⟨hmapped, hspecs⟩, hsettles⟩ := h
  rw [foldlM_cons]
  have hfail := ((@ends_processTasks lib ns w wf b _ _ _ (createWorkflowProcessMapping ns) w₂
    (fun _ => True) (@keepsStore_ensureServiceTaskConsumer ns) hspecs hsettles
    (nodup_cons.1 hnodup).2
    fun els' h => by simp [hrejected] at h).imp fun h => by simp [hrejected] at h).can
  refine Can.seq hfail (fun w₃ wf'' h => ?_) fun w₃ e h => ⟨⟨e, rfl⟩, ?_⟩
  · obtain ⟨els', haccepted', -⟩ := h.2.settled b hb (nodup_cons.1 (nodup_cons.1 hnodup).2).1
    simp [hrejected] at haccepted'
  · rw [value_eq_of_store h.2, hmapped]

/-- The same in the course of `LoadWorkflow`, when the checks of the names find nothing. -/
theorem Can.mapAndFailLoad {g b : String} {els : List Element} (hprocess : ¬ w.ForeignProcess ns wf)
    (hmessage : ¬ w.ForeignMessage ns wf) (hg : g ∈ wf.process.keys) (hb : b ∈ wf.process.keys)
    (haccepted : processVerdict lib w ns wf g = .accepted els)
    (hrejected : processVerdict lib w ns wf b = .rejected) : Can (env noFault)
      (fun w' r => (∃ e, r = .error e) ∧ w'.value (mappingLoc ns wf g) = some wf.name) w
      (SharWorkflow.loadWorkflowDefinition lib getHash ns wf).run := by
  refine Can.wrap (Can.next (M := fun w' _ => w' = w)
    (ends_wrap.2 ((ends_validateUniqueProcessIdFor wf).mono ?_)) ?_)
  · rintro w r ⟨rfl, hr⟩
    rw [hr.2 hprocess]
    exact ⟨(), rfl, rfl⟩
  rintro w _ rfl
  refine Can.next (M := fun w' _ => w' = w)
    (ends_wrap.2 ((ends_validateUniqueMessageNames wf).mono ?_)) ?_
  · rintro w r ⟨rfl, hr⟩
    rw [hr.2 hmessage]
    exact ⟨(), rfl, rfl⟩
  rintro w _ rfl
  refine Can.next (M := fun w' _ => w' = w) (by simp) ?_
  rintro w _ rfl
  refine Can.next (M := fun w' _ => w'.store = w.store) (by simp [World.issue]) fun w₁ wfID h₁ => ?_
  refine Can.seq (Can.mapAndFail hg hb haccepted hrejected h₁) (fun _ _ h => ?_) fun _ e h => ?_
  · simp at h
  · exact ⟨⟨_, rfl⟩, h.2⟩

/-- **A rejected definition leaves the registry as it was**, in every execution, exactly when a name
check rejects it, or no process of it fails its check, or every process that passes is already
mapped to the workflow. -/
theorem rejected_load_keeps_registry_iff (lib : Lib) (getHash : Workflow → Bytes) (ns : String)
    (wf : Workflow) (w : World) : (∀ w' e, Exec (env noFault) w
        (SharWorkflow.loadWorkflowDefinition lib getHash ns wf).run w' (.error e) →
        SameRegistry w w') ↔
      w.ForeignProcess ns wf ∨ w.ForeignMessage ns wf ∨ NoneRejected lib w ns wf ∨
        AlreadyMapped lib w ns wf := by
  constructor
  · intro hkeeps
    by_contra hcon
    simp only [not_or] at hcon
    obtain ⟨hprocess, hmessage, hrejected, hmapped⟩ := hcon
    simp only [NoneRejected, AlreadyMapped, not_forall, not_not] at hrejected hmapped
    obtain ⟨b, hb, hrejected⟩ := hrejected
    obtain ⟨g, hg, els, haccepted, hnew⟩ := hmapped
    obtain ⟨w', r, hexec, ⟨e, rfl⟩, hvalue⟩ := @Can.mapAndFailLoad lib getHash ns w wf g b
      els hprocess hmessage hg hb haccepted hrejected
    have hsame := hkeeps w' e hexec (mappingLoc ns wf g) (by simp [registryBuckets])
    exact hnew (hsame.symm.trans hvalue)
  · intro h w' e hexec l _
    rcases Ends.load.exec hexec with ⟨hstore, -⟩ | ⟨hnames, hsame, key, hkey, hrejected⟩
    · exact value_eq_of_store hstore l
    · rcases h with h | h | h | h
      · exact absurd (.inl h) hnames
      · exact absurd (.inr h) hnames
      · exact absurd hrejected (h key hkey)
      · exact hsame h l

/-- A process with a service task. -/
def refundProcess : Process where
  id := "refund"
  elements := [{ id := "pay", type := .serviceTask, execute := "transfer" }]

/-- A definition with that process, and one of which nothing is to be checked. -/
def ordersWorkflow : Workflow where
  name := "orders"
  process := ((∅ : GoMap Process).insert "refund" refundProcess).insert "quote" { id := "quote" }

/-- **A rejected definition that changes the registry.** Nothing is stored, so the task of one of
the two processes is not registered, and the call fails; but the other process may be mapped to
the workflow before. -/
theorem rejected_load_maps_process : ∃ w' e, Exec (env noFault) {}
      (SharWorkflow.loadWorkflowDefinition (constLib ∅) (fun _ => []) "default" ordersWorkflow).run
        w' (.error e) ∧ ¬ SameRegistry {} w' := by
  have hempty : ∀ l : Loc, ({} : World).value l = none := fun _ => rfl
  have hprocess : ¬ ({} : World).ForeignProcess "default" ordersWorkflow := by
    simp [World.ForeignProcess, hempty]
  have hmessage : ¬ ({} : World).ForeignMessage "default" ordersWorkflow := by
    simp [World.ForeignMessage, hempty]
  obtain ⟨w', r, hexec, ⟨e, rfl⟩, hvalue⟩ := @Can.mapAndFailLoad (constLib ∅) (fun _ => [])
    "default" {} ordersWorkflow "quote" "refund" [] hprocess hmessage (by simp [ordersWorkflow])
    (by simp [ordersWorkflow]) rfl rfl
  refine ⟨w', e, hexec, fun hsame => ?_⟩
  have hmapping := hsame (mappingLoc "default" ordersWorkflow "quote") (by simp [registryBuckets])
  rw [hvalue, hempty] at hmapping
  cases hmapping

end SharWorkflow
