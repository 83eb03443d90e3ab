import SharWorkflow.Gateways.Transforms
import SharWorkflow.Links.Agreement

/-!
# Dead ends that the linter does not come to

The scan of a process goes depth first from the start events. At an element it takes the flows in
their order, and a flow to an element that has been **visited** before ends the loop: the flows
after it are **passed over**. At a link throw event it looks for the catch event and goes on to the
throw event itself, which has been visited, so that nothing behind a link is scanned.

* `Process.Closed`: an element has been scanned. Each edge from it leads to a visited element or is
  passed over, and without edges it is an end event.
* `exists_closed`: the elements that an accepted scan has visited are closed.
* `deadEnds_iff`: every dead end of an accepted process is an end event exactly when those behind
  the edges that may be passed over are.
-/

namespace SharWorkflow

open Relation List

/-! ### Paths to an end -/

/-- An end event, as the linter knows them. -/
def Element.isEnd (e : Element) : Prop := e.type = .endEvent ∨ e.type = .compensateEndEvent

namespace Process

/-- A start event of the process. -/
def Starts (p : Process) (s : Element) : Prop :=
  s ∈ p.elements ∧ (s.type = .startEvent ∨ s.type = .timedStartEvent)

/-- A flow leads from an element to another, or a link from its throw event to a catch event. -/
def Leads (p : Process) (e e' : Element) : Prop :=
  (∃ t ∈ e.targetIds, (processTable p).lookup t = some e') ∨
    (e.type = .linkIntermediateThrowEvent ∧ e' ∈ p.allElements ∧ e'.isLinkCatch e.execute = true)

/-- An element without a flow from it, and without a link. -/
def DeadEnd (p : Process) (e : Element) : Prop :=
  e.targetIds = [] ∧ ¬(e.type = .linkIntermediateThrowEvent ∧
    ∃ c ∈ p.allElements, c.isLinkCatch e.execute = true)

/-- Every dead end that can be reached from an element is an end event. -/
def EndsWell (p : Process) (e : Element) : Prop :=
  ∀ x, ReflTransGen p.Leads e x → p.DeadEnd x → x.isEnd

/-- The element `t` that a flow of `el` leads to may have been visited before: it is a start event,
or a flow of another element or an earlier flow of `el` leads to it as well. -/
def Shared (p : Process) (el : Element) (before : List String) (t : String) : Prop :=
  (∃ s, p.Starts s ∧ s.id = t) ∨ t ∈ before ∨ ∃ e ∈ p.allElements, e ≠ el ∧ t ∈ e.targetIds

/-- The edge from one element to another is one that the scan does not follow, or may not follow. -/
inductive PassedOver (p : Process) (el y : Element) : Prop
  /-- The flow is listed after one to an element that may have been visited before. -/
  | later {before after : List String} {t u : String}
    (not_throw : el.type ≠ .linkIntermediateThrowEvent)
    (targets : el.targetIds = before ++ t :: after) (shared : p.Shared el before t)
    (mem : u ∈ after) (lookup : (processTable p).lookup u = some y)
  /-- The edge leaves a link throw event. -/
  | link (throw_ : el.type = .linkIntermediateThrowEvent) (leads : p.Leads el y)
  /-- The flow leads to an element with the id of a start event that it is not. -/
  | sameId {t : String} {s : Element} (mem : t ∈ el.targetIds)
    (lookup : (processTable p).lookup t = some y) (start : p.Starts s) (id : s.id = t) (ne : s ≠ y)

variable {p : Process} {el x y : Element}

theorem PassedOver.leads (h : p.PassedOver el y) : p.Leads el y := by
  cases h with
  | later not_throw targets shared mem lookup =>
    refine .inl ⟨_, ?_, lookup⟩
    rw [targets]
    exact mem_append_right _ (mem_cons_of_mem _ mem)
  | link throw_ leads => exact leads
  | sameId mem lookup start id ne => exact .inl ⟨_, mem, lookup⟩

theorem Shared.mono {before before' : List String} {t : String} (h : p.Shared el before t)
    (hsub : before ⊆ before') : p.Shared el before' t := by
  rcases h with hstart | hbefore | hother
  · exact .inl hstart
  · exact .inr (.inl (hsub hbefore))
  · exact .inr (.inr hother)

/-- The element has been scanned, and the elements `D` have been visited. -/
structure Closed (p : Process) (D : List Element) (e : Element) : Prop where
  ends : e.type ≠ .linkIntermediateThrowEvent → e.targetIds = [] → e.isEnd
  edges : ∀ y, p.Leads e y → y ∈ D ∨ p.PassedOver e y

theorem Closed.mono {D D' : List Element} (h : p.Closed D x) (hsub : D ⊆ D') : p.Closed D' x where
  ends := h.ends
  edges y hleads := (h.edges y hleads).imp_left fun hmem => hsub hmem

/-- The visited elements: each is a start event or has been found in the table, where an element
that was visited before leads to it. -/
structure Visited (p : Process) (D : List Element) : Prop where
  mem : ∀ e ∈ D, e ∈ p.allElements
  known : ∀ e ∈ D, (processTable p).lookup e.id = some e ∨ p.Starts e
  entered : ∀ e ∈ D, (∃ s, p.Starts s ∧ s.id = e.id) ∨ ∃ e' ∈ D, e.id ∈ e'.targetIds

/-- What the scan of the element `el` does: `D` had been visited before it, and `D'` after it. An
element that is new has been entered from `el` or from another new one. -/
structure Scans (p : Process) (el : Element) (D D' : List Element) : Prop where
  sub : D ⊆ D'
  visited : p.Visited D'
  closed : ∀ e ∈ D', e ∈ D ∨ p.Closed D' e
  entered : ∀ e ∈ D', e ∈ D ∨
    ∃ e' ∈ D', (e' = el ∨ e'.id ∉ D.map (·.id)) ∧ e.id ∈ e'.targetIds

theorem Visited.scans {D : List Element} (h : p.Visited D) : p.Scans el D D where
  sub := List.Subset.refl D
  visited := h
  closed _ he := .inl he
  entered _ he := .inl he

theorem mem_of_lookup_processTable {t : String} (h : (processTable p).lookup t = some x) :
    x ∈ p.allElements := by
  rw [lookup_processTable_eq] at h
  obtain ⟨i, -, hi⟩ := Option.bind_eq_some_iff.1 h
  exact mem_of_getElem? hi

/-! ### The scan of an element -/

section Scan

variable {D : List Element} {target : Element} {t : String} {before : List String}

/-- A new element is visited: a flow of the visited element `el` leads to it. -/
theorem Visited.cons (h : p.Visited D) (hel : el ∈ D)
    (htarget : (processTable p).lookup target.id = some target) (hflow : target.id ∈ el.targetIds) :
    p.Visited (target :: D) where
  mem := forall_mem_cons.2 ⟨mem_of_lookup_processTable htarget, h.mem⟩
  known := forall_mem_cons.2 ⟨.inl htarget, h.known⟩
  entered := forall_mem_cons.2 ⟨.inr ⟨el, mem_cons_of_mem _ hel, hflow⟩,
    fun e he => (h.entered e he).imp_right fun ⟨e', he', hmem⟩ =>
      ⟨e', mem_cons_of_mem _ he', hmem⟩⟩

/-- What has been visited before a new element has been entered from another one. -/
theorem Visited.shared_of_new (h : p.Visited D) (hnew : target.id ∉ D.map (·.id)) (hel : el ∈ D)
    (hflow : target.id ∈ el.targetIds) : ∀ e ∈ target :: D, p.Shared target [] e.id := by
  have hne : ∀ e ∈ D, e ≠ target := by
    rintro e he rfl
    exact hnew (mem_map_of_mem he)
  refine forall_mem_cons.2 ⟨.inr (.inr ⟨el, h.mem el hel, hne el hel, hflow⟩), ?_⟩
  intro e he
  rcases h.entered e he with hstart | ⟨e', he', hmem⟩
  · exact .inl hstart
  · exact .inr (.inr ⟨e', h.mem e' he', hne e' he', hmem⟩)

/-- The element that a flow leads to has been visited, or another one with its id. -/
theorem Visited.mem_or_passedOver (h : p.Visited D)
    (htarget : (processTable p).lookup t = some target) (hvisited : t ∈ D.map (·.id))
    (hflow : t ∈ el.targetIds) : target ∈ D ∨ p.PassedOver el target := by
  obtain ⟨e, he, rfl⟩ := mem_map.1 hvisited
  by_cases heq : e = target
  · exact .inl (heq ▸ he)
  rcases h.known e he with hlookup | hstart
  · exact absurd (Option.mem_unique hlookup htarget) heq
  · exact .inr (.sameId hflow htarget hstart rfl heq)

theorem not_mem_of_new {e : Element} (hnew : target.id ∉ D.map (·.id))
    (h : e = target ∨ e.id ∉ (target :: D).map (·.id)) : e.id ∉ D.map (·.id) := by
  rcases h with rfl | hnot
  · exact hnew
  · exact fun hmem => hnot (mem_cons_of_mem _ hmem)

/-- After the scan of a target all visited elements may have been visited before the next flow. -/
theorem Scans.shared {D₁ : List Element} (h : p.Scans target (target :: D) D₁)
    (hnew : target.id ∉ D.map (·.id)) (hel : el ∈ D) (hshared : ∀ e ∈ D, p.Shared el before e.id) :
    ∀ e ∈ D₁, p.Shared el (before ++ [target.id]) e.id := by
  intro e he
  rcases h.entered e he with hmem | ⟨e', he', hfrom, hflow⟩
  · rcases mem_cons.1 hmem with rfl | hmem
    · exact .inr (.inl (by simp))
    · exact (hshared e hmem).mono (subset_append_left _ _)
  · refine .inr (.inr ⟨e', h.visited.mem e' he', ?_, hflow⟩)
    rintro rfl
    exact not_mem_of_new hnew hfrom (mem_map_of_mem hel)

/-- The scan of one target and then of the others. -/
theorem Scans.trans {D₁ D₂ : List Element} (hel : el ∈ D) (hflow : target.id ∈ el.targetIds)
    (hnew : target.id ∉ D.map (·.id))
    (h₁ : p.Scans target (target :: D) D₁) (hclosed : p.Closed D₁ target) (h₂ : p.Scans el D₁ D₂) :
    p.Scans el D D₂ where
  sub e he := h₂.sub (h₁.sub (mem_cons_of_mem _ he))
  visited := h₂.visited
  closed e he := by
    rcases h₂.closed e he with he₁ | hclosed₂
    · rcases h₁.closed e he₁ with hmem | hclosed₁
      · rcases mem_cons.1 hmem with rfl | hmem
        · exact .inr (hclosed.mono h₂.sub)
        · exact .inl hmem
      · exact .inr (hclosed₁.mono h₂.sub)
    · exact .inr hclosed₂
  entered e he := by
    have hsub : D.map (·.id) ⊆ D₁.map (·.id) :=
      map_subset _ fun e he => h₁.sub (mem_cons_of_mem _ he)
    rcases h₂.entered e he with he₁ | ⟨e', he', hfrom, hmem⟩
    · rcases h₁.entered e he₁ with hmem | ⟨e', he', hfrom, hmem⟩
      · rcases mem_cons.1 hmem with rfl | hmem
        · exact .inr ⟨el, h₂.sub (h₁.sub (mem_cons_of_mem _ hel)), .inl rfl, hflow⟩
        · exact .inl hmem
      · exact .inr ⟨e', h₂.sub he', .inr (not_mem_of_new hnew hfrom), hmem⟩
    · exact .inr ⟨e', he', hfrom.imp_right fun hnew hold => hnew (hsub hold), hmem⟩

/-- What a scan of single elements must do for the loop over the flows of an element. -/
def ScansWell (p : Process) (scan : Element → List String → Scanned) : Prop :=
  ∀ el D visited, p.Visited D → el ∈ D → scan el (D.map (·.id)) = .done visited →
    ∃ D', visited = D'.map (·.id) ∧ p.Scans el D D' ∧
      ((∀ e ∈ D, p.Shared el [] e.id) → p.Closed D' el)

/-- The loop over the flows of an element: those to come are `targets`. -/
theorem scanEach_done {scan : Element → List String → Scanned} (hscan : p.ScansWell scan)
    {targets visited : List String} (hthrow : el.type ≠ .linkIntermediateThrowEvent)
    (htargets : el.targetIds = before ++ targets) (hD : p.Visited D) (hel : el ∈ D)
    (h : scanEach scan (processTable p) targets (D.map (·.id)) = .done visited) :
    ∃ D', visited = D'.map (·.id) ∧ p.Scans el D D' ∧
      ((∀ e ∈ D, p.Shared el before e.id) → ∀ u ∈ targets, ∀ y,
        (processTable p).lookup u = some y → y ∈ D' ∨ p.PassedOver el y) := by
  induction targets generalizing before D with
  | nil =>
    cases h
    exact ⟨D, rfl, hD.scans, fun _ => nofun⟩
  | cons t rest ih =>
    have hflow : t ∈ el.targetIds := by
      rw [htargets]
      exact mem_append_right _ mem_cons_self
    unfold scanEach at h
    split at h
    · cases h
    rename_i target htarget
    obtain rfl : target.id = t := indexed_processTable p _ _ htarget
    split at h
    · -- the flow leads to a visited element, and ends the loop
      rename_i hvisited
      cases h
      refine ⟨D, rfl, hD.scans, fun hshared u hu y hy => ?_⟩
      rcases mem_cons.1 hu with rfl | hu
      · obtain rfl : target = y := Option.mem_unique htarget hy
        exact hD.mem_or_passedOver htarget hvisited hflow
      · obtain ⟨e, he, hid⟩ := mem_map.1 hvisited
        exact .inr (.later hthrow htargets (hid ▸ hshared e he) hu hy)
    · rename_i hnew
      split at h
      · rename_i visited₁ hdone
        obtain ⟨D₁, rfl, hscans, hclosed⟩ := hscan target (target :: D) visited₁
          (hD.cons hel htarget hflow) mem_cons_self hdone
        have hclosed := hclosed (hD.shared_of_new hnew hel hflow)
        have hel₁ : el ∈ D₁ := hscans.sub (mem_cons_of_mem _ hel)
        have htargets' : el.targetIds = (before ++ [target.id]) ++ rest := by
          rw [htargets, append_assoc, singleton_append]
        obtain ⟨D₂, rfl, hscans₂, hedges⟩ := ih htargets' hscans.visited hel₁ h
        refine ⟨D₂, rfl, .trans hel hflow hnew hscans hclosed hscans₂, fun hshared u hu y hy => ?_⟩
        rcases mem_cons.1 hu with rfl | hu
        · obtain rfl : target = y := Option.mem_unique htarget hy
          exact .inl (hscans₂.sub (hscans.sub mem_cons_self))
        · exact hedges (hscans.shared hnew hel hshared) u hu y hy
      · rename_i hother
        exact absurd h (hother visited)

theorem scanTargets_eq_ok {index : GoMap Element} {targets : List String}
    (h : scanTargets index el = .ok targets) :
    (el.type = .linkIntermediateThrowEvent ∧ targets = [el.id]) ∨
      (el.type ≠ .linkIntermediateThrowEvent ∧ targets = el.targetIds) := by
  unfold scanTargets at h
  split at h
  · rename_i hthrow
    split at h
    · cases h
      exact .inl ⟨hthrow, rfl⟩
    · cases h
  · rename_i hthrow
    cases h
    exact .inr ⟨hthrow, rfl⟩

/-- **The scan of an element.** -/
theorem scansWell_directedColouredTraverse (fuel : Nat) :
    p.ScansWell (directedColouredTraverse (processTable p) fuel) := by
  induction fuel with
  | zero =>
    intro el D visited _ _ h
    cases h
  | succ fuel ih =>
    intro el D visited hD hel h
    unfold directedColouredTraverse at h
    split at h
    · cases h
    · -- no flow
      rename_i hok
      unfold endOfProcess at h
      split at h
      · rename_i hend
        cases h
        refine ⟨D, rfl, hD.scans, fun _ => ⟨fun _ _ => hend, fun y hleads => ?_⟩⟩
        rcases scanTargets_eq_ok hok with ⟨-, hnil⟩ | ⟨hthrow, hnil⟩
        · cases hnil
        · rcases hleads with ⟨t, ht, -⟩ | ⟨hthrow', -⟩
          · rw [← hnil] at ht
            cases ht
          · exact absurd hthrow' hthrow
      · cases h
    · rename_i targets hne hok
      rcases scanTargets_eq_ok hok with ⟨hthrow, rfl⟩ | ⟨hthrow, rfl⟩
      · -- a link throw event leads to itself, and it has been visited
        have hlookup : (processTable p).lookup el.id = some el := by
          rcases hD.known el hel with hlookup | ⟨-, hstart⟩
          · exact hlookup
          · simp [hthrow] at hstart
        have hvisited : el.id ∈ D.map (·.id) := mem_map_of_mem hel
        simp only [scanEach, hlookup, if_pos hvisited] at h
        cases h
        exact ⟨D, rfl, hD.scans, fun _ => ⟨fun hnot => absurd hthrow hnot,
          fun y hleads => .inr (.link hthrow hleads)⟩⟩
      · obtain ⟨D', hvisited, hscans, hedges⟩ :=
          scanEach_done ih hthrow (nil_append _).symm hD hel h
        refine ⟨D', hvisited, hscans, fun hshared =>
          ⟨fun _ hnil => absurd hnil hne, fun y hleads => ?_⟩⟩
        rcases hleads with ⟨t, ht, hy⟩ | ⟨hthrow', -⟩
        · exact hedges hshared t ht y hy
        · exact absurd hthrow' hthrow

end Scan

/-- The scans from the start events. -/
theorem scanStarts_done {fuel : Nat} {starts : List Element} {D : List Element}
    {visited : List String} (hstarts : ∀ s ∈ starts, p.Starts s) (hD : p.Visited D)
    (hclosed : ∀ e ∈ D, p.Closed D e)
    (h : scanStarts (processTable p) fuel starts (D.map (·.id)) = .done visited) :
    ∃ D', D ⊆ D' ∧ (∀ s ∈ starts, s ∈ D') ∧ ∀ e ∈ D', p.Closed D' e := by
  induction starts generalizing D with
  | nil => exact ⟨D, List.Subset.refl D, forall_mem_nil _, hclosed⟩
  | cons s rest ih =>
    obtain ⟨hs, hrest⟩ := forall_mem_cons.1 hstarts
    unfold scanStarts at h
    split at h
    · rename_i visited₁ hdone
      have hentered : ∀ e ∈ s :: D, (∃ s, p.Starts s ∧ s.id = e.id) ∨
          ∃ e' ∈ s :: D, e.id ∈ e'.targetIds := by
        refine forall_mem_cons.2 ⟨.inl ⟨s, hs, rfl⟩, fun e he => ?_⟩
        exact (hD.entered e he).imp_right fun ⟨e', he', hmem⟩ =>
          ⟨e', mem_cons_of_mem _ he', hmem⟩
      have hvisited : p.Visited (s :: D) :=
        ⟨forall_mem_cons.2 ⟨mem_append_left _ hs.1, hD.mem⟩,
          forall_mem_cons.2 ⟨.inr hs, hD.known⟩, hentered⟩
      obtain ⟨D₁, rfl, hscans, hown⟩ :=
        scansWell_directedColouredTraverse fuel s (s :: D) visited₁ hvisited mem_cons_self
          hdone
      have hsub : D ⊆ D₁ := fun e he => hscans.sub (mem_cons_of_mem _ he)
      have hclosed₁ : ∀ e ∈ D₁, p.Closed D₁ e := by
        intro e he
        rcases hscans.closed e he with hmem | hclosed'
        · rcases mem_cons.1 hmem with rfl | hmem
          · -- a start event that has been scanned before, as a target, is closed already
            by_cases hold : e ∈ D
            · exact (hclosed e hold).mono hsub
            · refine hown (forall_mem_cons.2 ⟨.inl ⟨e, hs, rfl⟩, fun e' he' => ?_⟩)
              refine (hD.entered e' he').imp_right fun ⟨e'', he'', hflow⟩ => ?_
              exact .inr ⟨e'', hD.mem e'' he'', fun heq => hold (heq ▸ he''), hflow⟩
          · exact (hclosed e hmem).mono hsub
        · exact hclosed'
      obtain ⟨D', hsub', hmem, hclosed'⟩ := ih hrest hscans.visited hclosed₁ h
      refine ⟨D', fun e he => hsub' (hsub he), forall_mem_cons.2 ⟨?_, hmem⟩, hclosed'⟩
      exact hsub' (hscans.sub mem_cons_self)
    · cases h
    · rename_i hother _
      exact absurd h (hother visited)

theorem starts_iff {s : Element} : p.Starts s ↔ s ∈ findProcessStarts p := by
  simp [Starts, findProcessStarts]

/-- **The visited elements are closed** when the scan of a process ends without an error. -/
theorem exists_closed {visited : List String} (h : startDirectedScan p = .done visited) :
    ∃ D, (∀ s, p.Starts s → s ∈ D) ∧ ∀ e ∈ D, p.Closed D e := by
  have hnone : p.Visited [] :=
    ⟨forall_mem_nil _, forall_mem_nil _, forall_mem_nil _⟩
  obtain ⟨D, -, hstarts, hclosed⟩ := scanStarts_done (fun s hs => starts_iff.2 hs) hnone
    (forall_mem_nil _) h
  exact ⟨D, fun s hs => hstarts s (starts_iff.1 hs), hclosed⟩

/-- What the linter accepts has been scanned without an error, and has no error about its links. -/
theorem of_lint {wf : Workflow} {warningsAsErrors : Bool} {m : List LintMessage}
    (h : lint wf warningsAsErrors = some (m, none)) {key : String}
    (hp : wf.process.lookup key = some p) :
    (∃ visited, startDirectedScan p = .done visited) ∧ ∀ m ∈ linkEventRules p, m.type ≠ .error := by
  rw [lint, Option.map_eq_some_iff] at h
  obtain ⟨r, hr, hresult⟩ := h
  cases r with
  | error e => cases hresult
  | ok m' =>
    obtain ⟨rfl, hdone⟩ := lintProcesses_eq_ok hr
    have hmem : p ∈ wf.process.entries.map Sigma.snd :=
      mem_map_of_mem (f := Sigma.snd) (AList.mem_lookup_iff.1 hp)
    refine ⟨hdone p hmem, fun x hx herror => ?_⟩
    have hmsg : x ∈ (wf.process.entries.map (·.2)).flatMap linkEventRules :=
      mem_flatMap.2 ⟨p, hmem, hx⟩
    have hany : (([] : List LintMessage) ++
        (wf.process.entries.map (·.2)).flatMap linkEventRules).any
        (·.isError warningsAsErrors) = true :=
      any_eq_true.2 ⟨x, hmsg, by simp [LintMessage.isError, herror]⟩
    have hnone := congrArg Prod.snd hresult
    dsimp only at hnone
    rw [if_pos hany] at hnone
    cases hnone

end Process

/-- **The dead ends of an accepted process** are end events exactly when those are that lie behind
an edge that may be passed over. A link throw event of an embedded sub-process, whose links the
linter does not look at, must have an edge. -/
theorem deadEnds_iff (wf : Workflow) (warningsAsErrors : Bool) (m : List LintMessage)
    (haccepts : lint wf warningsAsErrors = some (m, none)) (key : String) (p : Process)
    (hp : wf.process.lookup key = some p) :
    (∀ s x, p.Starts s → ReflTransGen p.Leads s x → p.DeadEnd x → x.isEnd) ↔
      ∀ s x, p.Starts s → ReflTransGen p.Leads s x → (∀ y, p.PassedOver x y → p.EndsWell y) ∧
          (x ∉ p.elements → x.type = .linkIntermediateThrowEvent → ¬p.DeadEnd x) := by
  obtain ⟨⟨visited, hdone⟩, hlinks⟩ := Process.of_lint haccepts hp
  constructor
  · intro hends s x hs hx
    refine ⟨fun y hy z hz => hends s z hs (hx.trans (.head hy.leads hz)), fun _ hthrow hdead => ?_⟩
    have hend := hends s x hs hx hdead
    simp [Element.isEnd, hthrow] at hend
  · intro hpassed s x hs hx hdead
    obtain ⟨D, hstarts, hclosed⟩ := Process.exists_closed hdone
    -- an element on the path has been scanned, or only end events lie behind it
    have hpath : x ∈ D ∨ p.EndsWell x := by
      clear hdead
      induction hx with
      | refl => exact .inl (hstarts s hs)
      | tail hreach hleads ih =>
        rcases ih with hmem | hwell
        · exact ((hclosed _ hmem).edges _ hleads).imp_right ((hpassed s _ hs hreach).1 _)
        · exact .inr fun z hreach hdead => hwell z (.head hleads hreach) hdead
    rcases hpath with hmem | hwell
    · by_cases hthrow : x.type = .linkIntermediateThrowEvent
      · by_cases hown : x ∈ p.elements
        · obtain ⟨c, hc⟩ := filter_isLinkCatch_of_no_error hlinks hown hthrow
          have hcatch := List.mem_filter.1 (hc ▸ List.mem_singleton_self c)
          exact absurd ⟨hthrow, c, List.mem_append_left _ hcatch.1, hcatch.2⟩ hdead.2
        · exact absurd hdead ((hpassed s x hs hx).2 hown hthrow)
      · exact (hclosed x hmem).ends hthrow hdead.1
    · exact hwell x .refl hdead

theorem deadEnds_iff_diamond :
    (∀ s x, diamond.Starts s → ReflTransGen diamond.Leads s x → diamond.DeadEnd x → x.isEnd) ↔
      ∀ s x, diamond.Starts s → ReflTransGen diamond.Leads s x →
        (∀ y, diamond.PassedOver x y → diamond.EndsWell y) ∧
          (x ∉ diamond.elements → x.type = .linkIntermediateThrowEvent → ¬diamond.DeadEnd x) :=
  deadEnds_iff (workflowOf diamond) true [] rfl "choice" diamond rfl

/-- A task that is repeated until a check succeeds; the flow back is listed first, and the task
after the check has no flow. -/
def unfinishedCheck : Process :=
  { id := "unfinishedCheck"
    elements := [startTo "start" "work", taskTo "work" "check",
      gatewayTo .exclusive "check" ["work", "audit"], { id := "audit", type := .serviceTask }] }

/-- The linter accepts a process that ends in a task. -/
theorem unfinishedCheck_accepted : lint (workflowOf unfinishedCheck) true = some ([], none) ∧
      ∃ s x, unfinishedCheck.Starts s ∧ ReflTransGen unfinishedCheck.Leads s x ∧
        unfinishedCheck.DeadEnd x ∧ ¬x.isEnd := by
  refine ⟨rfl, startTo "start" "work", { id := "audit", type := .serviceTask },
    ⟨List.mem_cons_self, by decide⟩, ?_, ⟨rfl, by simp⟩, by simp [Element.isEnd]⟩
  have hfirst : unfinishedCheck.Leads (startTo "start" "work") (taskTo "work" "check") :=
    .inl ⟨"work", by decide, rfl⟩
  have hsecond : unfinishedCheck.Leads (taskTo "work" "check")
      (gatewayTo .exclusive "check" ["work", "audit"]) := .inl ⟨"check", by decide, rfl⟩
  have hthird : unfinishedCheck.Leads (gatewayTo .exclusive "check" ["work", "audit"])
      { id := "audit", type := .serviceTask } := .inl ⟨"audit", by decide, rfl⟩
  exact ((ReflTransGen.single hfirst).tail hsecond).tail hthird

end SharWorkflow
