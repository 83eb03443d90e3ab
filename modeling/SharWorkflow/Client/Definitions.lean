import SharWorkflow.Parser.Parsed
import SharWorkflow.Registry.Reload

/-!
# Definitions that have not changed

A client loads a definition under a name, and later asks whether the definition has changed
(`HasWorkflowDefinitionChanged`), or loads it again. Nothing should have changed then. The load and
the question come to the document that is hashed in different ways. The load puts the headers for
launches into it, encoded in the order in which a map happens to be gone through; the question does
not.

What the parser makes of a definition may depend on the order of maps as well, where several joins
are paired with one split. So it is a set of outcomes here (`Parses`).

* `headerToBytes`, `loadBPMNWorkflowFromBytes`, `hasWorkflowDefinitionChanged`: the functions of the
  client.
* `DefinitionKept`: the definition has not changed, and is loaded again under the same id.
* `definitionKept_iff`: this is so **if and only if** there are no headers, none of the names of the
  definition is taken by another workflow, and the parser always comes to the same document.
-/

namespace SharWorkflow

open Concurrent World

-- sequences are split by `ends_seq`
attribute [-simp] ExceptT.run_bind

/-! ### The client -/

/-- The msgpack encoding of a map of strings, in the order in which the runtime ranges over it. It
starts with the number of entries, so that no map is encoded as nothing. -/
structure MapEncoding where
  marshal : GoMap String → List String → Bytes
  marshal_ne_nil : ∀ header order, marshal header order ≠ []

variable (enc : MapEncoding)

/-- `headerToBytes`. -/
def headerToBytes (header : GoMap String) : Act Bytes :=
  if header.keys = [] then return []
  else do
    let order ← mapOrder header.keys
    return enc.marshal header order

/-- The outcome of the parser. -/
def Act.ofParsed {α : Type} : Parsed α → Act α
  | .done a => pure a
  | .failed e => throw e
  | .panics => Act.panic
  | .unfinished => Act.panic

variable (lib : Lib) (getHash : Workflow → Bytes) (ns : String)

/-- `LoadBPMNWorkflowFromBytes`, with what the parser comes to. -/
def loadBPMNWorkflowFromBytes (parsed : Parsed Workflow) (launchHeaders : GoMap String) :
    Act String := do
  let wf ← Act.ofParsed parsed
  let hdr ← Act.wrap "encode headers as bytes" (headerToBytes enc launchHeaders)
  loadWorkflowDefinition lib getHash ns { wf with autoLaunchHeaders := hdr }

/-- The end of `HasWorkflowDefinitionChanged`. -/
def changedFrom (versions : List WorkflowVersion) (parsed : Parsed Workflow) : Act Bool := do
  let wf ← Act.ofParsed parsed
  let wf ← resolveWorkflow lib ns wf
  let newest ← Act.deref versions.getLast?
  return newest.sha256 != getHash wf

/-- `HasWorkflowDefinitionChanged`, with what the parser comes to. -/
def hasWorkflowDefinitionChanged (name : String) (parsed : Parsed Workflow) : Act Bool := do
  match ← Act.attempt (streamWorkflowVersions ns name) with
  | .error e => if e.mentions "not found" then return true else throw e
  | .ok versions => changedFrom lib getHash ns versions parsed

/-! ### Definitions that are kept -/

/-- What `Parse` may come to for one definition under one name. -/
structure Parses (name : String) where
  outcome : Parsed Workflow → Prop
  named : ∀ {wf}, outcome (.done wf) → wf.name = name
  /-- the parser does not know of the headers -/
  unlaunched : ∀ {wf}, outcome (.done wf) → wf.autoLaunchHeaders = []

variable {name : String} (ps : Parses name)

/-- **The definition is kept**, in the state `w`: it has not changed, and is loaded again under the
same id. -/
structure DefinitionKept (launchHeaders : GoMap String) (w : World) (id : String) : Prop where
  unchanged : ∀ p, ps.outcome p → Ends (env noFault) False (fun _ r => r = .ok false) w
    (hasWorkflowDefinitionChanged lib getHash ns name p).run
  reloaded : ∀ p, ps.outcome p → Ends (env noFault) False (fun _ r => r = .ok id) w
    (loadBPMNWorkflowFromBytes enc lib getHash ns p launchHeaders).run

/-- The documents that may be hashed. -/
def Parses.documents (w : World) : Set Workflow :=
  {wf' | ∃ wf hdr, ps.outcome (.done wf) ∧
    Settles lib w ns { wf with autoLaunchHeaders := hdr } [] wf'}

/-- Whatever the parser comes to, the checks of the service tasks leave the same definition. -/
def Parses.Unambiguous (w : World) (wf : Workflow) : Prop :=
  ∀ p, ps.outcome p → ∃ wf₂, p = .done wf₂ ∧
    ∃ wf', Settles lib w ns wf [] wf' ∧ Settles lib w ns wf₂ [] wf'

/-- Neither the task specifications nor the versions under the name have changed. -/
structure RegistryKept (name : String) (w w' : World) : Prop where
  specs : SameSpecs w w'
  version : w'.value ⟨ns, .wfVersion, name⟩ = w.value ⟨ns, .wfVersion, name⟩

variable {enc lib getHash ns ps} {X : Prop} {w w₁ w₂ : World} {wf wf' : Workflow} {id : String}
  {launchHeaders : GoMap String}

/-! ### What the functions come to -/

/-- The headers may be encoded as these bytes. -/
def EncodedAs (enc : MapEncoding) (header : GoMap String) (hdr : Bytes) : Prop :=
  if header.keys = [] then hdr = []
  else ∃ order : List String, order.Perm header.keys ∧ hdr = enc.marshal header order

/-- Headers are never encoded as nothing. -/
theorem EncodedAs.eq_nil_iff {hdr : Bytes} (h : EncodedAs enc launchHeaders hdr) :
    hdr = [] ↔ launchHeaders.keys = [] := by
  unfold EncodedAs at h
  split at h
  · exact ⟨fun _ => ‹_›, fun _ => h⟩
  · obtain ⟨order, -, rfl⟩ := h
    exact ⟨fun hnil => absurd hnil (enc.marshal_ne_nil _ _), fun hkeys => absurd hkeys ‹_›⟩

theorem ends_headerToBytes {Q : World → Except Err Bytes → Prop} {F : Op → Prop} :
    Ends (env F) X Q w (headerToBytes enc launchHeaders).run ↔
      ∀ hdr, EncodedAs enc launchHeaders hdr → Q w (.ok hdr) := by
  unfold headerToBytes EncodedAs
  split
  · simp
  · simp only [ends_seq, ends_mapOrder, ends_pure]
    constructor
    · rintro h _ ⟨order, hperm, rfl⟩
      exact h order hperm
    · exact fun h order hperm => h _ ⟨order, hperm, rfl⟩

theorem Settles.autoLaunchHeaders (h : Settles lib w ns wf [] wf') :
    wf'.autoLaunchHeaders = wf.autoLaunchHeaders := by rw [h.same]

/-- The checks do not look at the headers. -/
theorem processVerdict_withHeaders (hdr : Bytes) (key : String) :
    processVerdict lib w ns { wf with autoLaunchHeaders := hdr } key =
      processVerdict lib w ns wf key := rfl

/-- **A load by the client.** -/
theorem Ends.loadBPMN : Ends (env noFault)
      (∃ key ∈ wf.process.keys, processVerdict lib w ns wf key = .panics) (fun w' r => match r with
        | .error _ => w.NameTaken ns wf ∨
            ∃ key ∈ wf.process.keys, processVerdict lib w ns wf key = .rejected
        | .ok id => ¬ w.NameTaken ns wf ∧ ∃ hdr wf', EncodedAs enc launchHeaders hdr ∧
            Loaded lib getHash ns { wf with autoLaunchHeaders := hdr } wf' w w' id) w
      (loadBPMNWorkflowFromBytes enc lib getHash ns (.done wf) launchHeaders).run := by
  rw [loadBPMNWorkflowFromBytes, ends_seq, Act.ofParsed, ends_pure]
  dsimp only
  rw [ends_seq, ends_wrap, ends_headerToBytes]
  intro hdr hencoded
  have hload := @Ends.load lib getHash ns w { wf with autoLaunchHeaders := hdr }
  simp only [processVerdict_withHeaders] at hload
  refine hload.mono ?_
  rintro w' (e | id) hr
  · exact hr.imp And.right fun h => h.2.2
  · obtain ⟨hnames, wf', hloaded⟩ := hr
    exact ⟨hnames, hdr, wf', hencoded, hloaded⟩

variable {newest : WorkflowVersion}

/-- **The question whether the definition has changed**, once it is parsed. -/
theorem Ends.changedFrom {versions : List WorkflowVersion}
    (hnewest : versions.getLast? = some newest) : Ends (env noFault)
      (∃ key ∈ wf.process.keys, processVerdict lib w ns wf key = .panics) (fun _ r => match r with
        | .error _ => ∃ key ∈ wf.process.keys, processVerdict lib w ns wf key = .rejected
        | .ok changed => ∃ wf', Settles lib w ns wf [] wf' ∧
            changed = (newest.sha256 != getHash wf')) w
      (changedFrom lib getHash ns versions (.done wf)).run := by
  rw [SharWorkflow.changedFrom, ends_seq, Act.ofParsed, ends_pure]
  dsimp only
  rw [ends_seq, resolveWorkflow, ends_wrap]
  refine (ends_processServiceTasks (R := SameSpecs w) (fun _ _ _ => ends_pure.2 ⟨rfl, rfl⟩)
    (fun hstore hR => hR.trans (.of_store hstore)) (fun _ => id) (.of_store rfl)
    fun _ _ _ _ w' _ hR _ => ends_pure.2 ⟨hR, rfl⟩).mono ?_
  rintro w' (e | wf') hr
  · exact hr.2
  · simp only [mapError_ok, hnewest, Act.deref_some, ends_seq, ends_pure]
    exact ⟨wf', hr.2, rfl⟩

theorem ends_hasWorkflowDefinitionChanged {Q : World → Except Err Bool → Prop} {name : String}
    {p : Parsed Workflow} (hnewest : (w.versions ns name).getLast? = some newest) :
    Ends (env noFault) X Q w (hasWorkflowDefinitionChanged lib getHash ns name p).run ↔
      Ends (env noFault) X Q w
        (changedFrom lib getHash ns (w.versions ns name) p).run := by
  obtain ⟨v, hv⟩ : ∃ v, w.value ⟨ns, .wfVersion, name⟩ = some v := by
    cases hv : w.value ⟨ns, .wfVersion, name⟩ with
    | some v => exact ⟨v, rfl⟩
    | none =>
      rw [World.versions, hv] at hnewest
      cases hnewest
  have hversions : w.versions ns name = v.version := by rw [World.versions, hv]; rfl
  simp only [hasWorkflowDefinitionChanged, streamWorkflowVersions, ends_seq, ends_attempt,
    ends_loadFor ⟨_, .wfVersion, _⟩, ends_pure, hv, hversions]
  simp

/-- **The definition has not changed**, exactly when the parser comes to a definition whose checks
leave a document with the hash of the newest version. -/
theorem unchanged_iff {name : String} {p : Parsed Workflow}
    (hnewest : (w.versions ns name).getLast? = some newest) :
    Ends (env noFault) False (fun _ r => r = .ok false) w
        (hasWorkflowDefinitionChanged lib getHash ns name p).run ↔
      ∃ wf wf', p = .done wf ∧ Settles lib w ns wf [] wf' ∧ newest.sha256 = getHash wf' := by
  rw [ends_hasWorkflowDefinitionChanged hnewest]
  constructor
  · intro hends
    cases p with
    | done wf =>
      obtain ⟨w', r, hexec, rfl⟩ := hends.can
      obtain ⟨wf', hsettles, hsame⟩ := (Ends.changedFrom hnewest).exec hexec
      exact ⟨wf, wf', rfl, hsettles, by simpa using hsame.symm⟩
    | failed e => simp [SharWorkflow.changedFrom, Act.ofParsed, ends_seq] at hends
    | panics => simp [SharWorkflow.changedFrom, Act.ofParsed, ends_seq] at hends
    | unfinished => simp [SharWorkflow.changedFrom, Act.ofParsed, ends_seq] at hends
  · rintro ⟨wf, wf', rfl, hsettles, hhash⟩
    have haccepted := hsettles.accepted
    refine ((Ends.changedFrom hnewest).imp ?_).mono ?_
    · rintro ⟨key, hkey, hpanics⟩
      obtain ⟨els, hels⟩ := haccepted key hkey
      cases hels.symm.trans hpanics
    · rintro w' (e | changed) hr
      · obtain ⟨key, hkey, hrejected⟩ := hr
        obtain ⟨els, hels⟩ := haccepted key hkey
        cases hels.symm.trans hrejected
      · obtain ⟨wf'', hsettles', rfl⟩ := hr
        obtain rfl := hsettles.eq hsettles'
        simp [hhash]

/-! ### When the definition is kept -/

section Same

variable {wf₂ : Workflow}

/-- Definitions with the same document have the same names. -/
theorem Settles.sameNames (h : Settles lib w ns wf [] wf') (h₂ : Settles lib w ns wf₂ [] wf') :
    wf₂.name = wf.name ∧ wf₂.messages = wf.messages ∧ wf₂.process.keys = wf.process.keys := by
  refine ⟨?_, ?_, h₂.keys.symm.trans h.keys⟩
  · have hname : wf'.name = wf.name := by rw [h.same]
    have hname₂ : wf'.name = wf₂.name := by rw [h₂.same]
    exact hname₂.symm.trans hname
  · have hmessages : wf'.messages = wf.messages := by rw [h.same]
    have hmessages₂ : wf'.messages = wf₂.messages := by rw [h₂.same]
    exact hmessages₂.symm.trans hmessages

theorem Settles.nameTaken_iff (h : Settles lib w ns wf [] wf') (h₂ : Settles lib w ns wf₂ [] wf') :
    w₁.NameTaken ns wf₂ ↔ w₁.NameTaken ns wf := by
  obtain ⟨hname, hmessages, hkeys⟩ := h.sameNames h₂
  rw [World.NameTaken, World.ForeignProcess, World.ForeignMessage, hname, hmessages, hkeys]
  exact Iff.rfl

/-- What is known of a definition is still known later, for each definition with its document. -/
theorem Known.later (h : Known lib getHash ns wf wf' w id) (hlater : RegistryKept ns wf.name w w₁)
    (h₂ : Settles lib w ns wf₂ [] wf') : Known lib getHash ns wf₂ wf' w₁ id := by
  refine ⟨h₂.of_sameSpecs hlater.specs.symm, ?_⟩
  rw [(h.settles.sameNames h₂).1, versions_of_value hlater.version]
  exact h.newest

end Same

/-- **A definition that was loaded is kept**, exactly when it was loaded without headers, none of
its names is taken by another workflow, and the parser always comes to the same document. -/
theorem definitionKept_iff (enc : MapEncoding) (lib : Lib) (getHash : Workflow → Bytes)
    (ns name : String) (ps : Parses name) (launchHeaders : GoMap String) (wf : Workflow)
    (w w₁ w₂ : World) (id : String) (hparsed : ps.outcome (.done wf)) (hloaded : Exec (env noFault) w
      (loadBPMNWorkflowFromBytes enc lib getHash ns (.done wf) launchHeaders).run w₁ (.ok id))
    (hlater : RegistryKept ns name w₁ w₂) (hcollision : Set.InjOn getHash (ps.documents lib ns w)) :
    DefinitionKept enc lib getHash ns ps launchHeaders w₂ id ↔
      launchHeaders.keys = [] ∧ ¬ w₂.NameTaken ns wf ∧ ps.Unambiguous lib ns w wf := by
  obtain ⟨-, hdr, wfL, hencoded, h⟩ := Ends.loadBPMN.exec hloaded
  have hspecs : SameSpecs w w₂ := h.specs.trans hlater.specs
  obtain ⟨newest, hlast, hhash, rfl⟩ := h.newest
  have hname := ps.named hparsed
  have hnewest : (w₂.versions ns name).getLast? = some newest := by
    rw [versions_of_value hlater.version, ← hname]
    exact hlast
  constructor
  · intro hkept
    -- whatever the parser comes to, the question hashes the document of the load
    have hdocument : ∀ p, ps.outcome p →
        ∃ wf₂, p = .done wf₂ ∧ Settles lib w ns wf₂ [] wfL := by
      intro p hp
      obtain ⟨wf₂, wf', rfl, hsettles, hhash'⟩ := (unchanged_iff hnewest).1 (hkept.unchanged p hp)
      have hsettles := hsettles.of_sameSpecs hspecs
      obtain rfl : wf' = wfL := hcollision ⟨wf₂, wf₂.autoLaunchHeaders, hp, hsettles⟩
        ⟨wf, hdr, hparsed, h.settles⟩ (hhash'.symm.trans hhash)
      exact ⟨wf₂, rfl, hsettles⟩
    obtain ⟨_, hwf, hsettles⟩ := hdocument _ hparsed
    cases hwf
    have hnil : hdr = [] := by
      have hheaders := h.settles.autoLaunchHeaders
      rw [hsettles.autoLaunchHeaders, ps.unlaunched hparsed] at hheaders
      exact hheaders.symm
    refine ⟨hencoded.eq_nil_iff.1 hnil, ?_, ?_⟩
    · obtain ⟨w₃, r, hexec, rfl⟩ := (hkept.reloaded _ hparsed).can
      exact (Ends.loadBPMN.exec hexec).1
    · intro p hp
      obtain ⟨wf₂, rfl, hsettles₂⟩ := hdocument p hp
      exact ⟨wf₂, rfl, wfL, hsettles, hsettles₂⟩
  · rintro ⟨hkeys, hnames, hunambiguous⟩
    obtain rfl : hdr = [] := hencoded.eq_nil_iff.2 hkeys
    have hsame : ∀ wf₂, ps.outcome (.done wf₂) → { wf₂ with autoLaunchHeaders := [] } = wf₂ := by
      intro wf₂ hp
      rw [← ps.unlaunched hp]
    rw [hsame wf hparsed] at h
    have hknown : ∀ p, ps.outcome p → ∃ wf₂, p = .done wf₂ ∧
        Settles lib w ns wf₂ [] wfL ∧ Known lib getHash ns wf₂ wfL w₂ newest.id := by
      intro p hp
      obtain ⟨wf₂, rfl, wf', hsettles, hsettles₂⟩ := hunambiguous p hp
      obtain rfl := h.settles.eq hsettles
      exact ⟨wf₂, rfl, hsettles₂,
        h.known.later (hname ▸ hlater) (hsettles₂.of_sameSpecs h.specs.symm)⟩
    refine ⟨fun p hp => ?_, fun p hp => ?_⟩
    · obtain ⟨wf₂, rfl, -, hknown⟩ := hknown p hp
      exact (unchanged_iff hnewest).2 ⟨wf₂, wfL, rfl, hknown.settles, hhash⟩
    · obtain ⟨wf₂, rfl, hsettles₂, hknown⟩ := hknown p hp
      rw [← h.settles.nameTaken_iff hsettles₂] at hnames
      rw [loadBPMNWorkflowFromBytes, ends_seq, Act.ofParsed, ends_pure]
      dsimp only
      rw [ends_seq, ends_wrap, ends_headerToBytes]
      intro hdr hencoded
      obtain rfl : hdr = [] := hencoded.eq_nil_iff.2 hkeys
      rw [mapError_ok]
      dsimp only
      rw [hsame wf₂ hp]
      refine hknown.again.mono ?_
      rintro w₃ (e | id') hr
      · exact absurd hr hnames
      · rw [hr.2.1]

/-! ### A definition with a header -/

/-- A definition of which the parser makes one thing only. -/
def Parses.only (wf : Workflow) (h : wf.autoLaunchHeaders = []) : Parses wf.name where
  outcome p := p = .done wf
  named := by
    rintro _ ⟨⟩
    rfl
  unlaunched := by
    rintro _ ⟨⟩
    exact h

/-- The encoding of a text of less than 32 bytes. -/
def shortText (s : String) : Bytes := UInt8.ofNat (0xa0 + s.utf8ByteSize) :: s.toUTF8.toList

/-- The encoding of maps of less than 16 entries, with such texts. -/
def plainEncoding : MapEncoding where
  marshal header order := UInt8.ofNat (0x80 + order.length) :: order.flatMap fun key =>
    shortText key ++ shortText ((header.lookup key).getD "")
  marshal_ne_nil _ _ := List.cons_ne_nil _ _

/-- A process that does nothing. -/
def greetingWorkflow : Workflow where
  name := "Greeting"
  process := AList.singleton "greeting" { id := "greeting", elements := [
    { id := "start", type := .startEvent }, { id := "end", type := .endEvent }] }

/-- What the parser makes of its definition. -/
def greetingParses : Parses "Greeting" := Parses.only greetingWorkflow rfl

theorem greeting_accepted : ∀ key ∈ greetingWorkflow.process.keys, ∃ els,
    processVerdict (constLib ∅) {} "default" greetingWorkflow key = .accepted els := by
  intro key hkey
  obtain rfl : key = "greeting" := by simpa [greetingWorkflow] using hkey
  exact ⟨_, rfl⟩

/-- The documents of the definition differ in their headers only. -/
theorem greeting_injOn :
    Set.InjOn Workflow.autoLaunchHeaders (greetingParses.documents (constLib ∅) "default" {}) := by
  rintro wf₁ ⟨_, hdr₁, ⟨⟩, h₁⟩ wf₂ ⟨_, hdr₂, ⟨⟩, h₂⟩ hheaders
  obtain rfl : hdr₁ = hdr₂ := by
    rwa [h₁.autoLaunchHeaders, h₂.autoLaunchHeaders] at hheaders
  exact h₁.eq h₂

/-- The load of the definition goes through. -/
theorem greeting_loaded (launchHeaders : GoMap String) :
    ∃ w₁ id hdr wf', Exec (env noFault) {}
        (loadBPMNWorkflowFromBytes plainEncoding (constLib ∅) Workflow.autoLaunchHeaders "default"
          (.done greetingWorkflow) launchHeaders).run w₁ (.ok id) ∧
      EncodedAs plainEncoding launchHeaders hdr ∧
      Loaded (constLib ∅) Workflow.autoLaunchHeaders "default"
        { greetingWorkflow with autoLaunchHeaders := hdr } wf' {} w₁ id := by
  have hpanics : ¬ ∃ key ∈ greetingWorkflow.process.keys,
      processVerdict (constLib ∅) {} "default" greetingWorkflow key = .panics := by
    rintro ⟨key, hkey, hpanics⟩
    obtain ⟨els, hels⟩ := greeting_accepted key hkey
    cases hels.symm.trans hpanics
  obtain ⟨w₁, r, hexec, hr⟩ := (Ends.loadBPMN.imp hpanics).can
  cases r with
  | ok id =>
    obtain ⟨-, hdr, wf', hencoded, h⟩ := hr
    exact ⟨w₁, id, hdr, wf', hexec, hencoded, h⟩
  | error e =>
    rcases hr with (⟨_, _, _, hvalue, _⟩ | ⟨_, _, _, hvalue, _⟩) | ⟨key, hkey, hrejected⟩
    · cases hvalue
    · cases hvalue
    · obtain ⟨els, hels⟩ := greeting_accepted key hkey
      cases hels.symm.trans hrejected

theorem RegistryKept.refl (ns name : String) (w : World) : RegistryKept ns name w w :=
  ⟨.of_store rfl, rfl⟩

/-- Without headers the definition is kept. -/
theorem greeting_kept : ∃ w₁ id, Exec (env noFault) {}
        (loadBPMNWorkflowFromBytes plainEncoding (constLib ∅) Workflow.autoLaunchHeaders "default"
          (.done greetingWorkflow) ∅).run w₁ (.ok id) ∧
      DefinitionKept plainEncoding (constLib ∅) Workflow.autoLaunchHeaders "default" greetingParses
        ∅ w₁ id := by
  obtain ⟨w₁, id, hdr, wf', hexec, hencoded, h⟩ := greeting_loaded ∅
  obtain rfl : hdr = [] := hencoded
  have hreceivers : ReceiversNamed greetingWorkflow := fun m hm => absurd hm List.not_mem_nil
  refine ⟨w₁, id, hexec, (definitionKept_iff plainEncoding (constLib ∅) Workflow.autoLaunchHeaders
    "default" "Greeting" greetingParses ∅ greetingWorkflow {} w₁ w₁ id rfl hexec (.refl ..)
    greeting_injOn).2 ⟨rfl, h.nameTaken_iff.2 (.inr hreceivers), ?_⟩⟩
  rintro p rfl
  exact ⟨greetingWorkflow, rfl, wf', h.settles, h.settles⟩

/-- **A definition that is said to have changed.** It was loaded with a header, and nothing has
happened since. -/
theorem greeting_said_changed : ∃ w₁ id, Exec (env noFault) {}
        (loadBPMNWorkflowFromBytes plainEncoding (constLib ∅) Workflow.autoLaunchHeaders "default"
          (.done greetingWorkflow) (AList.singleton "origin" "test")).run w₁ (.ok id) ∧
      Set.InjOn Workflow.autoLaunchHeaders (greetingParses.documents (constLib ∅) "default" {}) ∧
      Ends (env noFault) False (fun _ r => r = .ok true) w₁
        (hasWorkflowDefinitionChanged (constLib ∅) Workflow.autoLaunchHeaders "default" "Greeting"
          (.done greetingWorkflow)).run := by
  obtain ⟨w₁, id, hdr, wfL, hexec, hencoded, h⟩ := greeting_loaded (AList.singleton "origin" "test")
  refine ⟨w₁, id, hexec, greeting_injOn, ?_⟩
  obtain ⟨newest, hlast, hhash, -⟩ := h.newest
  have hlast : (w₁.versions "default" "Greeting").getLast? = some newest := hlast
  have hhash : newest.sha256 = hdr := hhash.trans h.settles.autoLaunchHeaders
  have hne : hdr ≠ [] := fun hnil => absurd (hencoded.eq_nil_iff.1 hnil) nofun
  have hverdict : ∀ key, processVerdict (constLib ∅) w₁ "default" greetingWorkflow key =
      processVerdict (constLib ∅) {} "default" greetingWorkflow key :=
    processVerdict_of_sameSpecs h.specs
  rw [ends_hasWorkflowDefinitionChanged hlast]
  refine ((Ends.changedFrom hlast).imp ?_).mono ?_
  · rintro ⟨key, hkey, hpanics⟩
    obtain ⟨els, hels⟩ := greeting_accepted key hkey
    cases hels.symm.trans ((hverdict key).symm.trans hpanics)
  · rintro w' (e | changed) hr
    · obtain ⟨key, hkey, hrejected⟩ := hr
      obtain ⟨els, hels⟩ := greeting_accepted key hkey
      cases hels.symm.trans ((hverdict key).symm.trans hrejected)
    · obtain ⟨wf', hsettles, rfl⟩ := hr
      have hnil : wf'.autoLaunchHeaders = [] := hsettles.autoLaunchHeaders
      rw [hhash, hnil, bne_iff_ne.2 hne]

end SharWorkflow
