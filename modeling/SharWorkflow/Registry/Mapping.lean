import SharWorkflow.Registry.Loading
import SharWorkflow.Registry.Footprint

/-!
# The workflow of a process

A process belongs to one workflow. `LoadWorkflow` reads the mappings of its processes first, gives
up when one of them names another workflow, and **later** writes each mapping without looking at it
again. Two loads that both read before either writes both go through, and the one that writes last
takes the process away from the other (`process_mapped_twice`).

The reads are enough when each of them still holds at the write: in every run in which a mapping is
written only by a call that has read it since it was last written, a process stays with the workflow
that has loaded it (`mapped_process_stays`).

* `namingDiscipline`: what a load does to the mappings, as far as its own calls tell. Once it has
  found a foreign name it maps nothing, and when it succeeds it has mapped its processes.
* `Assigned`: what holds across the loads.
-/

namespace SharWorkflow

open Concurrent Discipline Protocol List World

variable {lib : Lib} {getHash : Workflow → Bytes} {ns name : String} {wf : Workflow}

/-! ### The discipline of a load -/

/-- What a load has come to know and to do: it has found a process that is not its own, and the ids
that it has mapped. -/
structure Naming where
  foreign : Bool := false
  mapped : List String := []
  deriving DecidableEq, Repr

/-- How an answer moves a load of the workflow `name`. A failed read counts as a foreign process. -/
def Naming.next (name : String) (l : Naming) : (o : Op) → Ans o → Naming
  | .get ⟨_, .wfProcess, _⟩, .ok entry => { l with foreign := l.foreign || entry.value ≠ name }
  | .get ⟨_, .wfProcess, _⟩, .error e => { l with foreign := l.foreign || !e.is .keyNotFound }
  | .put ⟨_, .wfProcess, id⟩ _, .ok _ => { l with mapped := id :: l.mapped }
  | _, _ => l

/-- Processes are mapped to the workflow as long as no foreign one has been found, and no mapping is
changed in another way. -/
def Naming.may (ns name : String) (l : Naming) : Op → Prop
  | .put ⟨ns', .wfProcess, _⟩ v => ns' = ns ∧ v = name ∧ l.foreign = false
  | .create ⟨_, .wfProcess, _⟩ _ => False
  | .update ⟨_, .wfProcess, _⟩ _ _ => False
  | .delete ⟨_, .wfProcess, _⟩ => False
  | _ => True

/-- A range over a map meets each key once. -/
def Ranges : (o : Op) → Ans o → Prop
  | .mapOrder keys, order => order.Perm keys
  | _, _ => True

/-- **The discipline of a load** of the workflow `name`, as to the mappings. -/
def namingDiscipline (ns name : String) : Discipline Op Ans Naming where
  may := Naming.may ns name
  step l o r l' := Ranges o r ∧ l' = l.next name o r

variable {o : Op} {l : Naming} {r : Ans o}

theorem Naming.next_of_avoiding (h : o.within (.avoiding .wfProcess)) (l : Naming) (r : Ans o) :
    l.next name o r = l := by
  cases o with
  | get loc | put loc _ =>
    obtain ⟨_, b, _⟩ := loc
    have hb : b ≠ .wfProcess := h
    cases b with
    | wfProcess => exact absurd rfl hb
    | _ => rfl
  | _ => rfl

theorem Naming.may_of_avoiding (h : o.within (.avoiding .wfProcess)) (l : Naming) :
    l.may ns name o := by
  cases o with
  | put loc v | create loc v | update loc v rev | delete loc =>
    obtain ⟨_, b, _⟩ := loc
    have hb : b ≠ .wfProcess := h
    cases b with
    | wfProcess => exact absurd rfl hb
    | _ => trivial
  | _ => trivial

/-- A foreign process stays found. -/
theorem Naming.foreign_of_next (h : (l.next name o r).foreign = false) : l.foreign = false := by
  unfold Naming.next at h
  split at h <;> simp_all

theorem Naming.may.delete {ns' id : String} (h : l.may ns name o) :
    isDeleteAt ⟨ns', .wfProcess, id⟩ o r = false := by
  cases o with
  | delete loc =>
    cases r with
    | error e => rfl
    | ok _ =>
      refine decide_eq_false fun hloc => ?_
      subst hloc
      exact h
  | _ => rfl

/-- The only way to write a mapping. -/
theorem Naming.may.store {ns' id : String} (h : l.may ns name o)
    (hstore : isStoreAt ⟨ns', .wfProcess, id⟩ o r = true) :
    o = .put ⟨ns, .wfProcess, id⟩ name ∧ ns' = ns ∧ l.foreign = false := by
  cases o with
  | put loc v | create loc v | update loc v rev =>
    cases r with
    | error e => cases hstore
    | ok _ =>
      cases of_decide_eq_true hstore
      first
        | exact h.elim
        | (obtain ⟨rfl, rfl, hforeign⟩ := h; exact ⟨rfl, rfl, hforeign⟩)
  | _ => cases hstore

/-- What is new among the ids that a load has mapped is what it has just written. -/
theorem Naming.may.mapped {id : String} (h : l.may ns name o) (hid : id ∈ (l.next name o r).mapped)
    :
    id ∈ l.mapped ∨ isStoreAt ⟨ns, .wfProcess, id⟩ o r = true := by
  unfold Naming.next at hid
  split at hid
  · exact .inl hid
  · exact .inl hid
  · obtain ⟨rfl, -, -⟩ := h
    exact (mem_cons.1 hid).symm.imp_right fun heq => decide_eq_true (by rw [heq])
  · exact .inl hid

/-- A program that avoids the mappings leaves the state of the discipline alone. -/
theorem keeps_avoiding {α : Type} {Q : α → Prop} {x : Act α}
    (hx : Yields (Footprint.avoiding .wfProcess).discipline Q x) (l : Naming) :
    (namingDiscipline ns name).Keeps (fun l' _ => l' = l) l x.run :=
  Footprint.keeps_avoiding (fun ho => Naming.may_of_avoiding ho l)
    (fun ho hr => hr.2.trans (Naming.next_of_avoiding ho l _)) hx

/-- The ids of the processes under the given keys. -/
def processIds (wf : Workflow) (keys : List String) : List String :=
  keys.map fun key => ((wf.process.lookup key).getD {}).id

/-- One process of the check: either it is no other workflow's, or its owner is reported. -/
theorem keeps_foreignProcess (key : String) (l : Naming) :
    (namingDiscipline ns name).Keeps (fun l' r => l'.mapped = l.mapped ∧
      ∀ found, r = .ok found → found = none → l'.foreign = l.foreign) l
      (foreignProcess ns name key).run := by
  refine keeps_seq.2 (keeps_bind.2 (keeps_call.2 ⟨trivial, ?_⟩))
  rintro (e | entry) l' ⟨-, rfl⟩
  · refine keeps_ret.2 (keeps_ret.2 ?_)
    dsimp only
    split
    · rename_i he
      refine keeps_ret.2 ⟨rfl, fun _ _ _ => ?_⟩
      simp [Naming.next, he]
    · exact keeps_call.2 ⟨trivial, fun r => r.elim⟩
  · refine keeps_ret.2 (keeps_ret.2 (keeps_ret.2 ⟨rfl, fun found hfound hnone => ?_⟩))
    cases hfound
    split at hnone
    · simp [Naming.next, *]
    · cases hnone

/-- The processes that the check has found in other workflows. -/
theorem keeps_foreignProcesses (keys : List String) (l : Naming) :
    (namingDiscipline ns name).Keeps (fun l' r => l'.mapped = l.mapped ∧
      ∀ found, r = .ok found → found.filterMap id = [] → l'.foreign = l.foreign) l
      (keys.mapM (foreignProcess ns name)).run := by
  have := @Prog.lawfulMonad Op Ans
  induction keys generalizing l with
  | nil => exact keeps_ret.2 ⟨rfl, fun _ _ _ => rfl⟩
  | cons key keys ih =>
    rw [mapM_cons]
    refine keeps_seq.2 ((keeps_foreignProcess key l).mono ?_)
    rintro l₁ (e | found) ⟨hmapped, hforeign⟩
    · exact ⟨hmapped, nofun⟩
    refine keeps_seq.2 ((ih l₁).mono ?_)
    rintro l₂ (e | rest) ⟨hmapped', hforeign'⟩
    · exact ⟨hmapped'.trans hmapped, nofun⟩
    refine keeps_ret.2 ⟨hmapped'.trans hmapped, fun all hall hnone => ?_⟩
    cases hall
    cases found with
    | some p => simp at hnone
    | none => exact (hforeign' rest rfl (by simpa using hnone)).trans (hforeign none rfl rfl)

/-- **The check**: when it passes, it has found nothing foreign. -/
theorem keeps_validateUniqueProcessIdFor (l : Naming) :
    (namingDiscipline ns wf.name).Keeps (fun l' r => l'.mapped = l.mapped ∧
      ∀ u, r = .ok u → l'.foreign = l.foreign) l (validateUniqueProcessIdFor ns wf).run := by
  refine keeps_seq.2 ((keeps_avoiding (yields_nsKVs trivial) l).mono ?_)
  rintro _ (e | _) rfl
  · exact ⟨rfl, nofun⟩
  refine keeps_seq.2 ((keeps_avoiding (yields_mapOrder trivial) _).mono ?_)
  rintro _ (e | keys) rfl
  · exact ⟨rfl, nofun⟩
  refine keeps_seq.2 ((keeps_foreignProcesses keys _).mono ?_)
  rintro l' (e | found) ⟨hmapped, hforeign⟩
  · exact ⟨hmapped, nofun⟩
  dsimp only
  split
  · rename_i hnone
    exact keeps_ret.2 ⟨hmapped, fun _ _ => hforeign found rfl hnone⟩
  · refine keeps_seq.2 ((keeps_avoiding (yields_mapOrder trivial) _).mono ?_)
    rintro _ (e | order) rfl
    · exact ⟨hmapped, nofun⟩
    · exact keeps_ret.2 ⟨hmapped, nofun⟩

variable {wf' : Workflow}

/-- The mapping of one process is written. -/
theorem keeps_mapping {i : Process} (hname : wf'.name = name) (hforeign : l.foreign = false) :
    (namingDiscipline ns name).Keeps (fun l' r => l'.foreign = false ∧ l.mapped ⊆ l'.mapped ∧
      ∀ u, r = .ok u → i.id ∈ l'.mapped) l (createWorkflowProcessMapping ns wf' i).run := by
  refine keeps_wrap.2 (keeps_call.2 ⟨⟨rfl, hname, hforeign⟩, ?_⟩)
  rintro (e | u) l' ⟨-, rfl⟩
  · exact keeps_ret.2 ⟨hforeign, fun _ h => h, nofun⟩
  · exact keeps_ret.2 ⟨hforeign, fun _ => mem_cons_of_mem _, fun _ _ => mem_cons_self⟩

/-- One process: its mapping is written once its service tasks have passed. -/
theorem keeps_processTasks {key : String} (hname : wf'.name = name) (hforeign : l.foreign = false) :
    (namingDiscipline ns name).Keeps (fun l' r => l'.foreign = false ∧ l.mapped ⊆ l'.mapped ∧
      ∀ wf'', r = .ok wf'' → ((wf'.process.lookup key).getD {}).id ∈ l'.mapped ∧
        ∃ i, wf'' = { wf' with process := wf'.process.replace key i }) l
      (processTasks lib ns (ensureServiceTaskConsumer ns) (createWorkflowProcessMapping ns) wf'
        key).run := by
  refine keeps_seq.2 ((keeps_avoiding
    (yields_processElements (loadReach_avoiding ns name).reads _ _) l).mono ?_)
  rintro _ (e | els) rfl
  · exact ⟨hforeign, fun _ h => h, nofun⟩
  refine keeps_seq.2 (keeps_wrap.2 ((keeps_mapping (by exact hname) hforeign).mono ?_))
  rintro l' (e | u) ⟨hforeign', hmapped, hid⟩
  · exact ⟨hforeign', hmapped, nofun⟩
  · refine keeps_ret.2 ⟨hforeign', hmapped, fun wf'' h => ?_⟩
    cases h
    exact ⟨hid _ rfl, _, rfl⟩

/-- **The processes of a definition**: when all have passed, all are mapped. -/
theorem keeps_processFold {rest : List String} (h : Underway wf rest wf') (hnodup : rest.Nodup)
    (hforeign : l.foreign = false) :
    (namingDiscipline ns wf.name).Keeps (fun l' r => l.mapped ⊆ l'.mapped ∧
      ∀ wf'', r = .ok wf'' → processIds wf rest ⊆ l'.mapped) l
      (rest.foldlM (processTasks lib ns (ensureServiceTaskConsumer ns)
        (createWorkflowProcessMapping ns)) wf').run := by
  -- along the order; an id that is mapped stays so
  induction rest generalizing wf' l with
  | nil => exact keeps_ret.2 ⟨fun _ h => h, fun _ _ => nofun⟩
  | cons key rest ih =>
    rw [foldlM_cons]
    refine keeps_seq.2 ((keeps_processTasks h.name hforeign).mono ?_)
    rintro l₁ (e | wf'') ⟨hforeign₁, hmapped₁, hok⟩
    · exact ⟨hmapped₁, nofun⟩
    obtain ⟨hid, i, rfl⟩ := hok wf'' rfl
    refine (ih (h.next hnodup) (nodup_cons.1 hnodup).2 hforeign₁).mono ?_
    rintro l₂ r ⟨hmapped₂, hall⟩
    rw [h.process key mem_cons_self] at hid
    exact ⟨List.Subset.trans hmapped₁ hmapped₂, fun wf'' hr =>
      cons_subset.2 ⟨hmapped₂ hid, hall wf'' hr⟩⟩

/-- **A load keeps the discipline**, and when it succeeds it has mapped its processes. -/
theorem keeps_loadWorkflowDefinition :
    (namingDiscipline ns wf.name).Keeps (fun l r => ∀ id, r = .ok id →
      processIds wf wf.process.keys ⊆ l.mapped) {}
      (loadWorkflowDefinition lib getHash ns wf).run := by
  refine keeps_wrap.2 (keeps_seq.2 (keeps_wrap.2 ((keeps_validateUniqueProcessIdFor {}).mono ?_)))
  rintro l (e | _) ⟨-, hforeign⟩
  · exact nofun
  replace hforeign := hforeign () rfl
  refine keeps_seq.2 (keeps_wrap.2 ((keeps_avoiding
    (touches_validateUniqueMessageNames (loadReach_avoiding ns wf.name).reads) l).mono ?_))
  rintro _ (e | _) rfl
  · exact nofun
  refine keeps_seq.2 ((keeps_avoiding (yields_nsKVs trivial) _).mono ?_)
  rintro _ (e | _) rfl
  · exact nofun
  refine keeps_seq.2 ((keeps_avoiding (yields_newId trivial) _).mono ?_)
  rintro _ (e | wfID) rfl
  · exact nofun
  refine keeps_seq.2 (keeps_seq.2 (keeps_bind.2 (keeps_call.2 ⟨trivial, ?_⟩)))
  rintro order _ ⟨hperm, rfl⟩
  have hnodup : order.Nodup := hperm.nodup_iff.2 wf.process.nodupKeys
  have hstart : Underway wf order wf := ⟨rfl, rfl, fun _ _ => rfl⟩
  refine keeps_ret.2 (keeps_ret.2 ((keeps_processFold hstart hnodup hforeign).mono ?_))
  rintro l' (e | wf') ⟨-, hall⟩
  · exact nofun
  have hids : processIds wf wf.process.keys ⊆ l'.mapped := fun id hid =>
    hall wf' rfl ((hperm.map _).mem_iff.2 hid)
  refine keeps_seq.2 ((keeps_avoiding
    (touches_storeVersion (loadReach_avoiding ns _) trivial trivial) l').mono ?_)
  rintro _ (e | stored) rfl
  · exact nofun
  dsimp only
  split
  · exact (keeps_avoiding (touches_announceVersion (loadReach_avoiding ns wf.name) stored.wfID)
      _).mono fun _ r hl _ _ => hl ▸ hids
  · exact keeps_ret.2 fun _ _ => hids

/-! ### Loads that run together -/

section Runs

variable {ι : Type} [DecidableEq ι]

/-- The call `i` has read the location since it was last written. -/
def readSince (i : ι) (l : Loc) : List (WEvent ι) → Bool
  | [] => false
  | e :: t => !isStoreAt l e.op e.answer && ((e.thread = i && isReadAt l e.op) || readSince i l t)

/-- The location that a call reads, writes or deletes. -/
def Op.loc? : Op → Option Loc
  | .get l | .put l _ | .create l _ | .update l _ _ | .delete l => some l
  | _ => none

/-- **A mapping is written on a read that still holds**: by a call that has read it since it was
last written. -/
def OnFreshRead (e : WEvent ι) (t : List (WEvent ι)) : Prop :=
  ∀ l ∈ e.op.loc?, l.bucket = .wfProcess → isStoreAt l e.op e.answer = true →
    readSince e.thread l t = true

instance (e : WEvent ι) (t : List (WEvent ι)) : Decidable (OnFreshRead e t) :=
  inferInstanceAs (Decidable (∀ l ∈ e.op.loc?, l.bucket = .wfProcess → _ → _))

/-- **What holds across the loads.** A load that may still map processes has seen, at each mapping
that it has read since the last write, nothing but its own name; and what it has mapped is still
mapped to its workflow. -/
structure Assigned (ns : ι → String) (wf : ι → Workflow) (s : World) (t : List (WEvent ι))
    (g : ι → Naming) : Prop where
  current : ∀ i ns' id, (g i).foreign = false → readSince i ⟨ns', .wfProcess, id⟩ t = true →
    ∀ v, s.value ⟨ns', .wfProcess, id⟩ = some v → v = (wf i).name
  mapped : ∀ i, ∀ id ∈ (g i).mapped, s.value ⟨ns i, .wfProcess, id⟩ = some (wf i).name

theorem Assigned.start {ns : ι → String} {wf : ι → Workflow} (s : World) :
    Assigned ns wf s [] fun _ => {} :=
  ⟨fun _ _ _ _ h => (by cases h), fun _ _ h => (by cases h)⟩

variable {F : Op → Prop} {s s' : World}

/-- What a read tells of a mapping. -/
theorem Naming.name_of_read {ns' id : String} {r : Ans (.get ⟨ns', .wfProcess, id⟩)}
    (henv : env F (.get ⟨ns', .wfProcess, id⟩) s r s')
    (hforeign : (l.next name (.get ⟨ns', .wfProcess, id⟩) r).foreign = false) {v : String}
    (hv : s.value ⟨ns', .wfProcess, id⟩ = some v) : v = name := by
  obtain ⟨-, ⟨hnone, -⟩ | ⟨v', isNil, hsome, -, rfl⟩ | ⟨-, text, rfl⟩⟩ := henv
  · rw [hnone] at hv
    cases hv
  · rw [hsome] at hv
    cases hv
    simp only [Naming.next, Bool.or_eq_false_iff, decide_eq_false_iff_not, not_not] at hforeign
    exact hforeign.2
  · simp [Naming.next, Err.is] at hforeign

/-- **One call of a load** keeps what holds across the loads. -/
theorem Assigned.call {ns : ι → String} {wf : ι → Workflow} {t : List (WEvent ι)} {g : ι → Naming}
    {i : ι} (h : Assigned ns wf s t g) (hmay : (g i).may (ns i) (wf i).name o)
    (henv : env F o s r s') (hguard : OnFreshRead ⟨i, s, o, r⟩ t) :
    Assigned ns wf s' (⟨i, s, o, r⟩ :: t) (Function.update g i ((g i).next (wf i).name o r)) := by
  -- a mapping that is not written holds what it held
  have hsame : ∀ ns' id, isStoreAt ⟨ns', .wfProcess, id⟩ o r = false →
      s'.value ⟨ns', .wfProcess, id⟩ = s.value ⟨ns', .wfProcess, id⟩ := fun _ _ hstore =>
    value_of_other henv hstore hmay.delete
  refine ⟨fun j ns' id hforeign hread v hv => ?_, fun j id hid => ?_⟩
  · simp only [readSince, Bool.and_eq_true, Bool.not_eq_true', Bool.or_eq_true,
      decide_eq_true_eq] at hread
    obtain ⟨hstore, hread⟩ := hread
    rw [hsame ns' id hstore] at hv
    rcases hread with ⟨rfl, hread⟩ | hread
    · rw [Function.update_self] at hforeign
      cases o with
      | get loc =>
        cases of_decide_eq_true hread
        exact Naming.name_of_read henv hforeign hv
      | _ => cases hread
    · refine h.current j ns' id ?_ hread v hv
      by_cases hj : j = i
      · subst hj
        rw [Function.update_self] at hforeign
        exact Naming.foreign_of_next hforeign
      · rwa [Function.update_of_ne hj] at hforeign
  · -- what was mapped before, or is being mapped now
    have hold : id ∈ (g j).mapped ∨ j = i ∧ isStoreAt ⟨ns j, .wfProcess, id⟩ o r = true := by
      by_cases hj : j = i
      · subst hj
        rw [Function.update_self] at hid
        exact (hmay.mapped hid).imp_right fun hstore => ⟨rfl, hstore⟩
      · rw [Function.update_of_ne hj] at hid
        exact .inl hid
    by_cases hstore : isStoreAt ⟨ns j, .wfProcess, id⟩ o r = true
    · obtain ⟨rfl, hns, hforeign⟩ := hmay.store hstore
      have hvalue : s'.value ⟨ns j, .wfProcess, id⟩ = some (wf i).name := by
        rcases henv with ⟨-, rfl⟩ | ⟨-, -, text, rfl⟩
        · rw [hns, put_value_self]
        · cases hstore
      rcases hold with hmapped | ⟨rfl, -⟩
      · have hread := hguard ⟨ns i, .wfProcess, id⟩ rfl rfl (hns ▸ hstore)
        have hname := h.current i (ns i) id hforeign hread (wf j).name (hns ▸ h.mapped j id hmapped)
        rw [hvalue, hname]
      · exact hvalue
    · rw [hsame _ _ (Bool.eq_false_of_not_eq_true hstore)]
      exact h.mapped j id (hold.resolve_right fun hnew => hstore hnew.2)

/-- The protocol of loads that run together. -/
def loadProtocol (F : Op → Prop) (ns : ι → String) (wf : ι → Workflow) :
    Protocol ι Op Ans World Naming :=
  natsProtocol F True OnFreshRead (Assigned ns wf)

theorem ranges_of_env (h : env F o s r s') : Ranges o r := by
  cases o with
  | mapOrder keys => exact h.2
  | _ => trivial

theorem namingDiscipline_governs (F : Op → Prop) (ns : ι → String) (wf : ι → Workflow) (i : ι) :
    (namingDiscipline (ns i) (wf i).name).Governs (loadProtocol F ns wf) i where
  allowed _ _ := trivial
  restores hmay hinv henv hguard :=
    ⟨_, ⟨ranges_of_env henv, rfl⟩, hinv.call hmay henv hguard⟩

/-- Loads that run together. -/
def loads (lib : Lib) (getHash : Workflow → Bytes) (ns : ι → String) (wf : ι → Workflow) (i : ι) :
    P (Except Err String) :=
  (loadWorkflowDefinition lib getHash (ns i) (wf i)).run

/-- **A process stays with the workflow that has loaded it.** In every run in which mappings are
written on reads that still hold, the processes of a load that has succeeded are mapped to its
workflow from then on; so two loads that share a process succeed together only under one name. -/
theorem mapped_process_stays (F : Op → Prop) (lib : Lib) (getHash : Workflow → Bytes)
    (ns : ι → String) (wf : ι → Workflow) (w₀ : World)
    {c : Config ι Op Ans World (Except Err String)}
    (hrun : Run (env F) (.start w₀ (loads lib getHash ns wf)) c)
    (hfresh : Guarded OnFreshRead c.trace) :
    (∀ i id, c.threads i = .ret (.ok id) → ∀ key ∈ (wf i).process.keys,
      c.state.value (mappingLoc (ns i) (wf i) key) = some (wf i).name) ∧
    ∀ i j id id' key key', c.threads i = .ret (.ok id) → c.threads j = .ret (.ok id') →
      key ∈ (wf i).process.keys → key' ∈ (wf j).process.keys → ns i = ns j →
      (((wf i).process.lookup key).getD {}).id = (((wf j).process.lookup key').getD {}).id →
      (wf i).name = (wf j).name := by
  have hstart := sound_start (Γ := loadProtocol F ns wf) (Assigned.start w₀) fun i =>
    Keeps.safe (s := w₀) (namingDiscipline_governs F ns wf i)
      (@keeps_loadWorkflowDefinition lib getHash (ns i) (wf i))
  obtain ⟨g, hsound⟩ := sound_of_run hstart hrun hfresh
  have hmapped : ∀ i id, c.threads i = .ret (.ok id) → ∀ key ∈ (wf i).process.keys,
      c.state.value (mappingLoc (ns i) (wf i) key) = some (wf i).name := by
    intro i id hi key hkey
    obtain ⟨-, -, hids⟩ := hsound.result hi
    exact hsound.inv.mapped i _ (hids id rfl (List.mem_map_of_mem hkey))
  refine ⟨hmapped, fun i j id id' key key' hi hj hkey hkey' hns hid => ?_⟩
  have hshared : ∀ {ns' k}, ns i = ns' → (((wf i).process.lookup key).getD {}).id = k →
      c.state.value ⟨ns', .wfProcess, k⟩ = some (wf i).name := by
    rintro _ _ rfl rfl
    exact hmapped i id hi key hkey
  exact Option.mem_unique (hshared hns hid) (hmapped j id' hj key' hkey')

end Runs

/-- Two definitions that share a process. -/
def sharedProcess (second : Bool) : Workflow where
  name := if second then "billing" else "orders"
  process := (∅ : GoMap Process).insert "ship" { id := "ship" }

/-- The two loads. -/
def sharedLoads : Bool → P (Except Err String) :=
  loads (constLib ∅) (fun _ => []) (fun _ => "default") sharedProcess

/-- Where their process is mapped. -/
abbrev sharedLoc : Loc := ⟨"default", .wfProcess, "ship"⟩

/-- One load after the other: the second one is turned down, and the process stays. -/
theorem mapped_process_stays_shared :
    ∃ c, Run (env noFault) (.start {} sharedLoads) c ∧ Guarded OnFreshRead c.trace ∧
      (∃ id, c.threads false = .ret (.ok id)) ∧ (∃ e, c.threads true = .ret (.error e)) ∧
      c.state.value sharedLoc = some "orders" := by
  obtain ⟨c, hrun, hfresh, ⟨id, hid⟩, hfailed⟩ := exists_run_of_reaches noFault
    (.start {} sharedLoads) (List.replicate 17 (false, .ok) ++ List.replicate 4 (true, .ok))
    (fun c => Guarded OnFreshRead c.trace ∧ (∃ id, c.threads false = .ret (.ok id)) ∧
      ∃ e, c.threads true = .ret (.error e)) (by decide +kernel)
  have hstays := mapped_process_stays noFault (constLib ∅) (fun _ => [])
    (fun _ => "default") sharedProcess {} hrun hfresh
  exact ⟨c, hrun, hfresh, ⟨id, hid⟩, hfailed, hstays.1 false id hid "ship" (by decide)⟩

/-- **A process that changes hands.** Both loads find the process free, and both succeed; the second
one maps the process that the first one has mapped and loaded. -/
theorem process_mapped_twice : ∃ c, Run (env noFault) (.start {} sharedLoads) c ∧
      (∃ id, c.threads false = .ret (.ok id)) ∧ (∃ id, c.threads true = .ret (.ok id)) ∧
      c.state.value sharedLoc = some "billing" :=
  exists_run_of_reaches noFault _ (List.replicate 3 (true, .ok) ++
    List.replicate 17 (false, .ok) ++ List.replicate 14 (true, .ok)) _ (by decide +kernel)

end SharWorkflow
