import SharWorkflow.Client.Linter
import SharWorkflow.Parser.Validation
import SharWorkflow.Engine.Activity

/-!
# Link events

A link throw event hands its token to the link catch event of the same name. The linter looks at the
names of the links process by process, the validator follows a link within the table of one process,
and the engine looks the catch event up in the table of **all** processes, in the order in which the
runtime ranges over it.

* `filter_isLinkCatch_of_no_error`: what it means that the linter has no error about a process.
* `chosenCatch_iff`: when a search for the catch event finds the one of the process in every order.
* `links_agree_iff`: the engine and the validator both go on with the catch event of the process
  exactly when neither table holds another catch event of that name.
-/

namespace SharWorkflow

open List

/-! ### What the linter accepts -/

/-- The names of the links of the elements `els`, as long as there is no message. -/
structure LinkNames.Describes (names : LinkNames) (els : List Element) : Prop where
  catch_ : ∀ link, (names.catch_.lookup link).isSome ↔ ∃ c ∈ els, c.isLinkCatch link = true
  throw_ : ∀ link, (names.throw_.lookup link).isSome ↔ ∃ e ∈ els, e.isLinkThrow link = true
  unique : ∀ link, (els.filter (·.isLinkCatch link)).length ≤ 1

theorem isSome_lookup_insert {β : Type} (s : GoMap β) (k k' : String) (v : β) :
    ((s.insert k v).lookup k').isSome ↔ (s.lookup k').isSome ∨ k = k' := by
  by_cases h : k' = k
  · subst h
    simp
  · rw [AList.lookup_insert_ne h]
    simp [Ne.symm h]

variable {e : Element}

theorem exists_mem_append_singleton {els : List Element} {p : Element → Prop} :
    (∃ x ∈ els ++ [e], p x) ↔ (∃ x ∈ els, p x) ∨ p e := by
  simp [or_and_right, exists_or]

variable {names : LinkNames} {processId : String}

theorem LinkNames.Describes.enter {els : List Element} (h : names.Describes els)
    (hmsgs : (names.enter processId e).msgs = []) :
    (names.enter processId e).Describes (els ++ [e]) := by
  unfold LinkNames.enter at hmsgs ⊢
  split at hmsgs
  · rename_i hcatch
    rw [if_pos hcatch]
    split at hmsgs
    · rename_i hnone
      refine ⟨fun link => ?_, fun link => ?_, fun link => ?_⟩
      · rw [isSome_lookup_insert, h.catch_, exists_mem_append_singleton]
        simp [Element.isLinkCatch, hcatch]
      · rw [h.throw_, exists_mem_append_singleton]
        simp [Element.isLinkThrow, hcatch]
      · rw [filter_append, length_append]
        by_cases hlink : e.execute = link
        · have hfirst : els.filter (·.isLinkCatch link) = [] := by
            rw [filter_eq_nil_iff]
            intro c hc hmatch
            have hsome := (h.catch_ link).2 ⟨c, hc, hmatch⟩
            rw [← hlink, hnone] at hsome
            cases hsome
          have hle := length_filter_le (·.isLinkCatch link) [e]
          rw [hfirst]
          simpa using hle
        · simpa [Element.isLinkCatch, hlink] using h.unique link
    · simp at hmsgs
  · rename_i hcatch
    rw [if_neg hcatch]
    have hkept : ∀ link, e.isLinkCatch link = false := fun link => by
      simp [Element.isLinkCatch, hcatch]
    have hcatches : ∀ link, (names.catch_.lookup link).isSome ↔
        ∃ c ∈ els ++ [e], c.isLinkCatch link = true := fun link => by
      rw [h.catch_, exists_mem_append_singleton]
      simp [hkept]
    have hunique : ∀ link, ((els ++ [e]).filter (·.isLinkCatch link)).length ≤ 1 := fun link => by
      simpa [hkept] using h.unique link
    split
    · rename_i hthrow
      refine ⟨hcatches, fun link => ?_, hunique⟩
      rw [isSome_lookup_insert, h.throw_, exists_mem_append_singleton]
      simp [Element.isLinkThrow, hthrow]
    · rename_i hthrow
      refine ⟨hcatches, fun link => ?_, hunique⟩
      rw [h.throw_, exists_mem_append_singleton]
      simp [Element.isLinkThrow, hthrow]

theorem msgs_of_enter (h : (names.enter processId e).msgs = []) : names.msgs = [] := by
  unfold LinkNames.enter at h
  split at h
  · split at h
    · exact h
    · simp at h
  · split at h <;> exact h

/-- The names are right as long as there is no message. -/
theorem describes_foldl (els : List Element)
    (h : (els.foldl (LinkNames.enter processId) {}).msgs = []) :
    (els.foldl (LinkNames.enter processId) {}).Describes els := by
  induction els using List.reverseRecOn with
  | nil => exact ⟨by simp, by simp, by simp⟩
  | append_singleton els e ih =>
    rw [foldl_append] at h ⊢
    exact (ih (msgs_of_enter h)).enter h

variable {type : MessageType} {text : String} {events others : GoMap String}

theorem type_of_mem_unmatchedLinks {m : LintMessage}
    (h : m ∈ unmatchedLinks type text processId events others) : m.type = type := by
  obtain ⟨k, -, rfl⟩ := mem_map.1 h
  rfl

variable {link : String}

theorem isSome_of_unmatchedLinks (h : unmatchedLinks type text processId events others = [])
    (hlink : (events.lookup link).isSome) : (others.lookup link).isSome := by
  obtain ⟨id, hid⟩ := Option.isSome_iff_exists.1 hlink
  rw [unmatchedLinks, map_eq_nil_iff, filter_eq_nil_iff] at h
  have hmatched := h ⟨link, id⟩ (AList.mem_lookup_iff.1 hid)
  simpa [Option.isNone_iff_eq_none, Option.isSome_iff_ne_none] using hmatched

theorem type_of_mem_msgs (els : List Element) :
    ∀ m ∈ (els.foldl (LinkNames.enter processId) {}).msgs, m.type = .error := by
  induction els using List.reverseRecOn with
  | nil => exact nofun
  | append_singleton els e ih =>
    rw [foldl_append, foldl_cons, foldl_nil, LinkNames.enter]
    split
    · split
      · exact ih
      · rw [forall_mem_append]
        exact ⟨ih, by simp⟩
    · split <;> exact ih

variable {p : Process}

/-- **A process without errors**: each link throw event has exactly one link catch event of its name
in the process. -/
theorem filter_isLinkCatch_of_no_error (h : ∀ m ∈ linkEventRules p, m.type ≠ .error)
    (he : e ∈ p.elements) (hthrow : e.type = .linkIntermediateThrowEvent) :
    ∃ c, p.elements.filter (·.isLinkCatch e.execute) = [c] := by
  simp only [linkEventRules, forall_mem_append] at h
  obtain ⟨⟨hmsgs, hthrows⟩, -⟩ := h
  have hmsgs : (p.elements.foldl (LinkNames.enter p.id) {}).msgs = [] :=
    eq_nil_iff_forall_not_mem.2 fun m hm => hmsgs m hm (type_of_mem_msgs p.elements m hm)
  have hthrows := eq_nil_iff_forall_not_mem.2 fun m hm =>
    hthrows m hm (type_of_mem_unmatchedLinks hm)
  have hnames := describes_foldl p.elements hmsgs
  have hsome : ((p.elements.foldl (LinkNames.enter p.id) {}).throw_.lookup e.execute).isSome :=
    (hnames.throw_ e.execute).2 ⟨e, he, by simp [Element.isLinkThrow, hthrow]⟩
  obtain ⟨c, hc, hmatch⟩ := (hnames.catch_ e.execute).1 (isSome_of_unmatchedLinks hthrows hsome)
  have hmem : c ∈ p.elements.filter (·.isLinkCatch e.execute) := mem_filter.2 ⟨hc, hmatch⟩
  have hle := hnames.unique e.execute
  have hlength : (p.elements.filter (·.isLinkCatch e.execute)).length = 1 := by
    have := length_pos_of_mem hmem
    omega
  exact length_eq_one_iff.1 hlength

/-- The linter accepts the definition without messages. -/
def LintAccepts (wf : Workflow) (warningsAsErrors : Bool) : Prop :=
  lint wf warningsAsErrors = some ([], none)

theorem LintAccepts.linkEventRules {wf : Workflow} {warningsAsErrors : Bool}
    (h : LintAccepts wf warningsAsErrors) {key : String}
    (hp : wf.process.lookup key = some p) : SharWorkflow.linkEventRules p = [] := by
  rw [LintAccepts, lint, Option.map_eq_some_iff] at h
  obtain ⟨r, hr, hresult⟩ := h
  cases r with
  | error e => cases hresult
  | ok m =>
    obtain rfl : m = [] := congrArg Prod.fst hresult
    have hrules :=
      flatMap_eq_nil_iff.1 (append_eq_nil_iff.1 (lintProcesses_eq_ok hr).1.symm).2
    exact hrules p (mem_map_of_mem (f := Sigma.snd) (AList.mem_lookup_iff.1 hp))

/-! ### Following a link -/

/-- The catch event for the link throw event that the table holds under an id: one of those of its
name, by `pick`. -/
def chosenCatch (pick : List Element → Option Element) (els : GoMap Element) (order : List String)
    (elementId : String) : Option Element :=
  (els.lookup elementId).bind fun el =>
    if el.type = .linkIntermediateThrowEvent then pick (linkCatches els order el.execute) else none

/-- The catch event that `activityCompleteProcessor` goes on with: the first one of the table of the
workflow. -/
def engineCatch (wf : Workflow) : List String → String → Option Element :=
  chosenCatch List.head? (elementTable wf)

/-- The catch event that `checkVariables` follows: the last one of the table of the process. -/
def followedCatch (p : Process) : List String → String → Option Element :=
  chosenCatch List.getLast? (processTable p)

variable {wf : Workflow} {el : Element}

/-- The branch along which `activityCompleteProcessor` sends the token of a link throw event leads
to the catch event `engineCatch`. -/
theorem outboundOf_eq (h : (elementTable wf).lookup e.id = some el)
    (hthrow : el.type = .linkIntermediateThrowEvent) :
    outboundOf (elementTable wf) el = (mapOrder (elementTable wf).keys >>= fun order =>
      (engineCatch wf order e.id).elim
        (throw (.workflowFatal (.text "corresponding catch not found") none))
        fun target => return some { target := [{ target := target.id }] }) := by
  rw [outboundOf, if_pos hthrow]
  congr 1
  funext order
  rw [engineCatch, chosenCatch, h, Option.bind_some, if_pos hthrow]
  cases (linkCatches (elementTable wf) order el.execute).head? <;> rfl

/-- The catch event whose outbounds the validator follows is `followedCatch`. -/
theorem linkCatch_eq {order : MapOrder} (h : (processTable p).lookup e.id = some el)
    (hthrow : el.type = .linkIntermediateThrowEvent) :
    linkCatch order (processTable p) el =
      followedCatch p (((order.entries (processTable p)).map Sigma.fst)) e.id := by
  rw [followedCatch, chosenCatch, h, Option.bind_some, if_pos hthrow, linkCatch]

/-- In the table `els`, the link of `e` leads to the catch event of the process `p`: the table holds
the throw event and the catch event under their ids, and no catch event of that name is from
elsewhere. -/
structure LinkResolves (els : GoMap Element) (p : Process) (e : Element) : Prop where
  throw_ : ∃ el, els.lookup e.id = some el ∧ el.isLinkThrow e.execute = true
  catch_ : ∀ c ∈ p.elements, c.isLinkCatch e.execute = true → els.lookup c.id = some c
  only : ∀ id c, els.lookup id = some c → c.isLinkCatch e.execute = true → c ∈ p.elements

variable {els : GoMap Element} {c : Element}

theorem lookup_mem_keys {id : String} {el : Element}
    (h : els.lookup id = some el) : id ∈ els.keys :=
  AList.lookup_isSome.1 (by rw [h]; rfl)

/-- A way to pick one of a list, such that each can be the one in some order. -/
structure Picks (pick : List Element → Option Element) : Prop where
  mem : ∀ {l x}, pick l = some x → x ∈ l
  some_of_mem : ∀ {l x}, x ∈ l → ∃ y, pick l = some y
  first : ∀ {els : GoMap Element} {id : String} {c : Element} {link : String},
    els.lookup id = some c → c.isLinkCatch link = true →
      ∃ order, order.Perm els.keys ∧ pick (linkCatches els order link) = some c

theorem picks_head? : Picks List.head? where
  mem h := mem_of_mem_head? h
  some_of_mem {l x} h := by
    cases l with
    | nil => cases h
    | cons y l => exact ⟨y, rfl⟩
  first {els id c link} hid hc := by
    refine ⟨id :: els.keys.erase id, (perm_cons_erase (lookup_mem_keys hid)).symm, ?_⟩
    simp [linkCatches, hid, hc]

theorem picks_getLast? : Picks List.getLast? where
  mem h := mem_of_mem_getLast? h
  some_of_mem {l x} h := ⟨l.getLast (ne_nil_of_mem h), List.getLast?_eq_some_getLast _⟩
  first {els id c link} hid hc := by
    refine ⟨els.keys.erase id ++ [id], ?_, ?_⟩
    · exact (perm_append_singleton id _).trans
        (perm_cons_erase (lookup_mem_keys hid)).symm
    · simp [linkCatches, hid, hc]

/-- **The search finds the catch event of the process in every order** exactly when the link
resolves in the table. -/
theorem chosenCatch_iff {pick : List Element → Option Element} (hpick : Picks pick)
    (hindexed : Indexed els) (hc : p.elements.filter (·.isLinkCatch e.execute) = [c]) :
    (∀ order, order.Perm els.keys → chosenCatch pick els order e.id = some c) ↔ LinkResolves els p e
      := by
  have hcatch : c ∈ p.elements ∧ c.isLinkCatch e.execute = true :=
    mem_filter.1 (hc ▸ mem_singleton_self c)
  have honly : ∀ c' ∈ p.elements, c'.isLinkCatch e.execute = true → c' = c := by
    intro c' hc' hmatch
    have hmem : c' ∈ p.elements.filter (·.isLinkCatch e.execute) := mem_filter.2 ⟨hc', hmatch⟩
    rwa [hc, mem_singleton] at hmem
  constructor
  · intro h
    obtain ⟨el, hel, hchosen⟩ := Option.bind_eq_some_iff.1 (h els.keys (List.Perm.refl _))
    have hthrow : el.type = .linkIntermediateThrowEvent := by
      by_contra hne
      simp [hne] at hchosen
    rw [if_pos hthrow] at hchosen
    obtain ⟨⟨id, -, hid⟩, hmatch⟩ := mem_linkCatches.1 (hpick.mem hchosen)
    have hlink : el.execute = e.execute := by
      simp only [Element.isLinkCatch, decide_eq_true_eq] at hmatch hcatch
      rw [← hmatch.2, hcatch.2.2]
    have hchoice : ∀ order, order.Perm els.keys →
        pick (linkCatches els order e.execute) = some c := by
      intro order horder
      have horder := h order horder
      simpa [chosenCatch, hel, hthrow, hlink] using horder
    refine ⟨⟨el, hel, by simp [Element.isLinkThrow, hthrow, hlink]⟩, fun c' hc' hmatch' => ?_,
      fun id' c' hid' hmatch' => ?_⟩
    · obtain rfl := honly c' hc' hmatch'
      obtain rfl := hindexed id _ hid
      exact hid
    · obtain ⟨order, horder, hfirst⟩ := hpick.first hid' hmatch'
      rw [hchoice order horder, Option.some.injEq] at hfirst
      exact hfirst ▸ hcatch.1
  · rintro ⟨⟨el, hel, hthrow⟩, hcatches, hothers⟩ order horder
    simp only [Element.isLinkThrow, decide_eq_true_eq] at hthrow
    have hmem : c ∈ linkCatches els order e.execute := by
      have hid := hcatches c hcatch.1 hcatch.2
      exact mem_linkCatches.2 ⟨⟨c.id, horder.mem_iff.2 (lookup_mem_keys hid), hid⟩, hcatch.2⟩
    obtain ⟨c', hchosen⟩ := hpick.some_of_mem hmem
    obtain ⟨⟨id, -, hid⟩, hmatch⟩ := mem_linkCatches.1 (hpick.mem hchosen)
    obtain rfl := honly c' (hothers id c' hid hmatch) hmatch
    simp [chosenCatch, hel, hthrow, hchosen]

/-- The engine and the validator both go on with the one catch event of the process, in whichever
order the runtime ranges over their tables. -/
def LinksAgree (wf : Workflow) (p : Process) (e : Element) : Prop :=
  ∃ c, p.elements.filter (·.isLinkCatch e.execute) = [c] ∧
    (∀ order, order.Perm (elementTable wf).keys → engineCatch wf order e.id = some c) ∧
    ∀ order, order.Perm (processTable p).keys → followedCatch p order e.id = some c

/-- **Links agree** exactly when they resolve in the table of the workflow and in that of the
process. -/
theorem links_agree_iff (wf : Workflow) (warningsAsErrors : Bool)
    (hlint : LintAccepts wf warningsAsErrors) (key : String) (p : Process)
    (hp : wf.process.lookup key = some p) (e : Element) (he : e ∈ p.elements)
    (hthrow : e.type = .linkIntermediateThrowEvent) :
    LinksAgree wf p e ↔ LinkResolves (elementTable wf) p e ∧ LinkResolves (processTable p) p e := by
  have hquiet : ∀ m ∈ linkEventRules p, m.type ≠ .error := by
    rw [hlint.linkEventRules hp]
    exact nofun
  obtain ⟨c, hc⟩ := filter_isLinkCatch_of_no_error hquiet he hthrow
  rw [← chosenCatch_iff picks_head? (indexed_elementTable wf) hc,
    ← chosenCatch_iff picks_getLast? (indexed_processTable p) hc]
  constructor
  · rintro ⟨c', hc', hengine, hfollowed⟩
    obtain rfl : c = c' := by simpa [hc] using hc'
    exact ⟨hengine, hfollowed⟩
  · rintro ⟨hengine, hfollowed⟩
    exact ⟨c, hc, hengine, hfollowed⟩

/-! ### Two processes with a link of the same name -/

/-- A process with the link `billing`. -/
def linkProcess (id : String) : Process where
  id := id
  elements := [
    { id := id ++ "-start", type := .startEvent
      outbound := some { target := [{ target := id ++ "-throw" }] } },
    { id := id ++ "-throw", type := .linkIntermediateThrowEvent, execute := "billing" },
    { id := id ++ "-catch", type := .linkIntermediateCatchEvent, execute := "billing"
      outbound := some { target := [{ target := id ++ "-end" }] } },
    { id := id ++ "-end", type := .endEvent }]

/-- A workflow with one such process. -/
def oneLink : Workflow := { process := AList.singleton "order" (linkProcess "order") }

/-- The link throw event of the process. -/
def linkThrow : Element :=
  { id := "order-throw", type := .linkIntermediateThrowEvent, execute := "billing" }

theorem links_agree_iff_one : LinksAgree oneLink (linkProcess "order") linkThrow ↔
      LinkResolves (elementTable oneLink) (linkProcess "order") linkThrow ∧
        LinkResolves (processTable (linkProcess "order")) (linkProcess "order") linkThrow :=
  links_agree_iff oneLink true rfl "order" (linkProcess "order") rfl linkThrow
    (List.mem_cons_of_mem _ List.mem_cons_self) rfl

/-- A workflow with two such processes. -/
def twoLinks : Workflow :=
  { process := (AList.singleton "order" (linkProcess "order")).insert "refund"
      (linkProcess "refund") }

/-- The link catch event of the other process. -/
def refundCatch : Element :=
  { id := "refund-catch", type := .linkIntermediateCatchEvent, execute := "billing"
    outbound := some { target := [{ target := "refund-end" }] } }

/-- **A link that leaves its process.** The linter has no message about the workflow. In one of the
orders in which the runtime may range over the elements, the engine chooses for the token of the
first process the catch event of the second one, where `traverse` panics as it looks up the name of
the element in the first process. The validator follows the link within the process. -/
theorem link_leaves_process : LintAccepts twoLinks true ∧
    twoLinks.process.lookup "order" = some (linkProcess "order") ∧
    linkThrow ∈ (linkProcess "order").elements ∧ (∃ order, order.Perm (elementTable twoLinks).keys ∧
      engineCatch twoLinks order "order-throw" = some refundCatch) ∧
    refundCatch ∉ (linkProcess "order").elements ∧
    ¬ LinksAgree twoLinks (linkProcess "order") linkThrow := by
  have hrefund : (elementTable twoLinks).lookup "refund-catch" = some refundCatch := rfl
  have hother : refundCatch ∉ (linkProcess "order").elements := by
    intro hmem
    have hid : refundCatch.id ∈ (linkProcess "order").elements.map (·.id) :=
      List.mem_map_of_mem hmem
    exact absurd hid (by decide)
  have hlink : Element.isLinkCatch "billing" refundCatch = true := by decide
  obtain ⟨order, horder, hfirst⟩ := picks_head?.first hrefund hlink
  have hengine : engineCatch twoLinks order "order-throw" = some refundCatch := hfirst
  refine ⟨rfl, rfl, List.mem_cons_of_mem _ List.mem_cons_self, ⟨order, horder, hengine⟩, hother, ?_⟩
  rintro ⟨c, hc, hagree, -⟩
  have hsame : refundCatch = c := Option.mem_unique hengine (hagree order horder)
  have hmem : c ∈ (linkProcess "order").elements :=
    (List.mem_filter.1 (hc ▸ List.mem_singleton_self c)).1
  exact hother (hsame ▸ hmem)

end SharWorkflow
