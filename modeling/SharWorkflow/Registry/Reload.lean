import SharWorkflow.Registry.Loading

/-!
# Loading a definition again

A definition that has just been loaded is loaded again. With the same task specifications its checks
come to the same result, so that its hash is that of the newest version, and nothing is added.

The **names of the messages** are the exception. A new version stores the receivers of each of its
messages, and a message without receivers is stored without the name of a workflow. The next load
then takes the message for one of another workflow. So the second load goes through exactly when the
first one has added no version, or the receivers of every message name the workflow
(`reload_same_iff`).

* `Settles.eq`: the definition after its checks is determined by the specifications.
-/

namespace SharWorkflow

open Concurrent List World

variable {lib : Lib} {getHash : Workflow → Bytes} {ns : String} {w : World} {wf : Workflow}
  {X : Prop}

/-! ### The definition after its checks -/

/-- Two maps with the same keys, in the same order, and the same entries are the same. -/
theorem GoMap.eq_of_lookup {β : Type} {s t : GoMap β} (hkeys : s.keys = t.keys)
    (h : ∀ k, s.lookup k = t.lookup k) : s = t := by
  obtain ⟨l, hl⟩ := s
  obtain ⟨l', hl'⟩ := t
  congr 1
  change l.keys = l'.keys at hkeys
  change ∀ k, l.dlookup k = l'.dlookup k at h
  induction l generalizing l' with
  | nil => exact (map_eq_nil_iff.1 hkeys.symm).symm
  | cons e l ih =>
    obtain ⟨k, v⟩ := e
    cases l' with
    | nil => simp at hkeys
    | cons e' l' =>
      obtain ⟨k', v'⟩ := e'
      simp only [keys_cons, List.cons.injEq] at hkeys
      obtain ⟨rfl, hkeys⟩ := hkeys
      have hv := h k
      rw [dlookup_cons_eq, dlookup_cons_eq, Option.some.injEq] at hv
      subst hv
      rw [nodupKeys_cons] at hl hl'
      rw [ih hl.2 l' hl'.2 hkeys fun x => ?_]
      by_cases hx : x = k
      · subst hx
        rw [dlookup_eq_none.2 hl.1, dlookup_eq_none.2 hl'.1]
      · have hx' := h x
        rwa [dlookup_cons_ne _ _ hx, dlookup_cons_ne _ _ hx] at hx'

variable {wf' : Workflow}

/-- **The checks determine the definition.** -/
theorem Settles.eq {wf₁ wf₂ : Workflow} (h₁ : Settles lib w ns wf [] wf₁)
    (h₂ : Settles lib w ns wf [] wf₂) : wf₁ = wf₂ := by
  have hprocess : wf₁.process = wf₂.process := by
    refine GoMap.eq_of_lookup (h₁.keys.trans h₂.keys.symm) fun key => ?_
    by_cases hkey : key ∈ wf.process.keys
    · obtain ⟨els₁, hels₁, hlookup₁⟩ := h₁.settled key hkey not_mem_nil
      obtain ⟨els₂, hels₂, hlookup₂⟩ := h₂.settled key hkey not_mem_nil
      obtain rfl : els₁ = els₂ := by simpa using hels₁.symm.trans hels₂
      rw [hlookup₁, hlookup₂]
    · have habsent : ∀ {wf' : Workflow}, wf'.process.keys = wf.process.keys →
          wf'.process.lookup key = none := fun h => AList.lookup_eq_none.2 fun hmem =>
        hkey (h ▸ AList.mem_keys.1 hmem)
      rw [habsent h₁.keys, habsent h₂.keys]
  rw [h₁.same, h₂.same, hprocess]

/-! ### The second load -/

theorem processVerdict_of_sameSpecs {w : World} (h : SameSpecs w w') (key : String) :
    processVerdict lib w' ns wf key = processVerdict lib w ns wf key :=
  elementsVerdict_of_sameSpecs h _ _

theorem Settles.of_sameSpecs {w : World} (h : SameSpecs w w')
    (hsettles : Settles lib w' ns wf [] wf') : Settles lib w ns wf [] wf' :=
  ⟨hsettles.same, hsettles.keys, hsettles.waiting, fun key hkey hrest => by
    rw [← processVerdict_of_sameSpecs h]
    exact hsettles.settled key hkey hrest⟩

/-- A definition that is the newest version: its checks come to the definition whose hash is that of
the newest version. -/
structure Known (lib : Lib) (getHash : Workflow → Bytes) (ns : String) (wf wf' : Workflow)
    (w : World) (id : String) : Prop where
  settles : Settles lib w ns wf [] wf'
  newest : ∃ newest, (w.versions ns wf.name).getLast? = some newest ∧
    newest.sha256 = getHash wf' ∧ newest.id = id

variable {id : String}

theorem Loaded.known {w : World}
    (h : Loaded lib getHash ns wf wf' w w₁ id) : Known lib getHash ns wf wf' w₁ id where
  settles := h.settles.of_sameSpecs h.specs.symm
  newest := h.newest

theorem Settles.accepted {w : World} (h : Settles lib w ns wf [] wf') :
    ∀ key ∈ wf.process.keys, ∃ els, processVerdict lib w ns wf key = .accepted els := by
  intro key hkey
  obtain ⟨els, hels, -⟩ := h.settled key hkey not_mem_nil
  exact ⟨els, hels⟩

/-- **The newest version, loaded again.** It returns the same id and changes nothing, or one of its
names is taken for one of another workflow. -/
theorem Known.again (h : Known lib getHash ns wf wf' w₁ id) : Ends (env noFault) False
      (fun w₂ r => match r with
        | .error _ => w₁.NameTaken ns wf
        | .ok id' => ¬ w₁.NameTaken ns wf ∧ id' = id ∧
            ∀ l : Loc, l.bucket ≠ .wfProcess → w₂.value l = w₁.value l) w₁
      (SharWorkflow.loadWorkflowDefinition lib getHash ns wf).run := by
  have haccepted := h.settles.accepted
  refine (Ends.load.imp ?_).mono ?_
  · rintro ⟨key, hkey, hpanics⟩
    obtain ⟨els, hels⟩ := haccepted key hkey
    cases hels.symm.trans hpanics
  rintro w₂ (e | id') hr
  · rcases hr with ⟨-, hnames⟩ | ⟨-, -, key, hkey, hrejected⟩
    · exact hnames
    · obtain ⟨els, hels⟩ := haccepted key hkey
      cases hels.symm.trans hrejected
  · obtain ⟨hnames, wf'', hagain⟩ := hr
    obtain rfl : wf' = wf'' := h.settles.eq hagain.settles
    obtain ⟨newest, hlast, hhash, rfl⟩ := h.newest
    obtain ⟨newest', hlast', -, rfl⟩ := hagain.newest
    rcases hagain.version with ⟨-, hsame⟩ | ⟨-, -, hnew, -⟩
    · have hversions : w₂.versions ns wf.name = w₁.versions ns wf.name :=
        versions_of_value (hsame _ nofun)
      rw [hversions, hlast, Option.some.injEq] at hlast'
      exact ⟨hnames, by rw [hlast'], hsame⟩
    · exact absurd hhash (hnew newest hlast)

/-- The receivers of every message of the definition name the workflow. -/
def ReceiversNamed (wf : Workflow) : Prop :=
  ∀ m ∈ wf.messages, (storedReceivers wf m.name).associatedWorkflowName = wf.name

/-- The load has left the list of versions of the definition as it was. -/
def VersionKept (ns : String) (wf : Workflow) (w w₁ : World) : Prop :=
  w₁.versions ns wf.name = w.versions ns wf.name

theorem Loaded.nameTaken_iff {w : World} (h : Loaded lib getHash ns wf wf' w w₁ id) :
    ¬ w₁.NameTaken ns wf ↔ VersionKept ns wf w w₁ ∨ ReceiversNamed wf := by
  rw [World.NameTaken, not_or, and_iff_right h.mapped]
  rcases h.version with ⟨hmessage, hsame⟩ | ⟨-, hadded, -, hstored⟩
  · exact ⟨fun _ => .inl (versions_of_value (hsame _ nofun)), fun _ => hmessage⟩
  · constructor
    · intro hmessage
      refine .inr fun m hm => ?_
      by_contra hne
      exact hmessage ⟨m, hm, _, hstored m hm, hne⟩
    · rintro (hkept | hnamed)
      · exact absurd hkept hadded
      · rintro ⟨m, hm, receivers, hvalue, hne⟩
        obtain rfl : storedReceivers wf m.name = receivers :=
          Option.mem_unique (hstored m hm) hvalue
        exact hne (hnamed m hm)

/-- The buckets that a load of a known definition should leave alone. -/
def definitionBuckets : List Bucket := [.wfVersion, .wf, .wfMsgTypes]

/-- **A definition that was just accepted is accepted again**, under the same id and without a
change, exactly when the first load has added no version or the receivers of every message name the
workflow. -/
theorem reload_same_iff (lib : Lib) (getHash : Workflow → Bytes) (ns : String) (wf : Workflow)
    (w w₁ : World) (id : String)
    (hloaded : Exec (env noFault) w (loadWorkflowDefinition lib getHash ns wf).run w₁
      (.ok id)) : Ends (env noFault) False (fun w₂ r => r = .ok id ∧
          ∀ l : Loc, l.bucket ∈ definitionBuckets → w₂.value l = w₁.value l) w₁
        (loadWorkflowDefinition lib getHash ns wf).run ↔
      VersionKept ns wf w w₁ ∨ ReceiversNamed wf := by
  obtain ⟨-, wf', h⟩ := Ends.load.exec hloaded
  rw [← h.nameTaken_iff]
  constructor
  · intro hends hnames
    obtain ⟨w₂, r, hexec, rfl, -⟩ := hends.can
    exact (h.known.again.exec hexec).1 hnames
  · intro hnames
    refine h.known.again.mono ?_
    rintro w₂ (e | id') hr
    · exact absurd hr hnames
    · obtain ⟨-, rfl, hsame⟩ := hr
      refine ⟨rfl, fun l hl => hsame l fun hbucket => ?_⟩
      rw [hbucket] at hl
      exact absurd hl (by decide)

/-! ### A message without receivers -/

/-- A definition with a message that nobody receives. -/
def payoutWorkflow : Workflow where
  name := "Payments"
  process := AList.singleton "payment" { id := "payment", elements := [
    { id := "start", type := .startEvent }, { id := "end", type := .endEvent }] }
  messages := [{ name := "paid" }]
  collaboration := some []

theorem payout_accepted : ∀ key ∈ payoutWorkflow.process.keys, ∃ els,
    processVerdict (constLib ∅) {} "default" payoutWorkflow key = .accepted els := by
  intro key hkey
  obtain rfl : key = "payment" := by simpa [payoutWorkflow] using hkey
  exact ⟨_, rfl⟩

/-- The first load of the definition goes through, and adds a version. -/
theorem payout_loaded (getHash : Workflow → Bytes) : ∃ w₁ id wf', Exec (env noFault) {}
        (loadWorkflowDefinition (constLib ∅) getHash "default" payoutWorkflow).run w₁ (.ok id) ∧
      Loaded (constLib ∅) getHash "default" payoutWorkflow wf' {} w₁ id := by
  have hpanics : ¬ ∃ key ∈ payoutWorkflow.process.keys,
      processVerdict (constLib ∅) {} "default" payoutWorkflow key = .panics := by
    rintro ⟨key, hkey, hpanics⟩
    obtain ⟨els, hels⟩ := payout_accepted key hkey
    cases hels.symm.trans hpanics
  obtain ⟨w₁, r, hexec, hr⟩ :=
    ((@Ends.load (constLib ∅) getHash "default" {} payoutWorkflow).imp hpanics).can
  cases r with
  | ok id =>
    obtain ⟨-, wf', h⟩ := hr
    exact ⟨w₁, id, wf', hexec, h⟩
  | error e =>
    rcases hr with ⟨-, ⟨_, _, _, hvalue, _⟩ | ⟨_, _, _, hvalue, _⟩⟩ | ⟨-, -, key, hkey, hrejected⟩
    · cases hvalue
    · cases hvalue
    · obtain ⟨els, hels⟩ := payout_accepted key hkey
      cases hels.symm.trans hrejected

theorem reload_same_iff_payment :
    ∃ w₁ id, Exec (env noFault) {} (loadWorkflowDefinition (constLib ∅) (fun _ => [])
      "default" payoutWorkflow).run w₁ (.ok id) ∧ (Ends (env noFault) False (fun w₂ r =>
      r = .ok id ∧ ∀ l : Loc, l.bucket ∈ definitionBuckets → w₂.value l = w₁.value l) w₁
      (loadWorkflowDefinition (constLib ∅) (fun _ => []) "default" payoutWorkflow).run ↔ VersionKept
      "default" payoutWorkflow {} w₁ ∨ ReceiversNamed payoutWorkflow) := by
  obtain ⟨w₁, id, -, hexec, -⟩ := payout_loaded fun _ => []
  exact ⟨w₁, id, hexec,
    reload_same_iff (constLib ∅) (fun _ => []) "default" payoutWorkflow {} w₁ id hexec⟩

/-- **A definition that is turned down the second time.** -/
theorem reload_turned_down :
    ∃ w₁ id, Exec (env noFault) {} (loadWorkflowDefinition (constLib ∅) (fun _ => [])
      "default" payoutWorkflow).run w₁ (.ok id) ∧ Ends (env noFault) False (fun _ r =>
      ∃ e, r = .error e) w₁ (loadWorkflowDefinition (constLib ∅) (fun _ => []) "default"
      payoutWorkflow).run := by
  obtain ⟨w₁, id, wf', hexec, h⟩ := payout_loaded fun _ => []
  have hforeign : w₁.ForeignMessage "default" payoutWorkflow := by
    rcases h.version with ⟨-, hsame⟩ | ⟨-, -, -, hstored⟩
    · obtain ⟨newest, hlast, -⟩ := h.newest
      rw [versions_of_value (hsame _ nofun)] at hlast
      cases hlast
    · exact ⟨_, List.mem_singleton_self _, _, hstored _ (List.mem_singleton_self _), by decide⟩
  refine ⟨w₁, id, hexec, h.known.again.mono ?_⟩
  rintro w₂ (e | id') hr
  · exact ⟨e, rfl⟩
  · exact absurd (.inr hforeign) hr.1

end SharWorkflow
