import SharWorkflow.Linter.DeadEnds
import SharWorkflow.Parser.Validation

/-!
# The traversals of a definition end

Two checks go along the flows of a process. The linter's scan has one set of visited elements for
all its branches; the check of the variables copies the set where an element has more than one way
on. In both the elements that have not been visited become fewer with each call, so that a call is
nested at most once for each element, cycles or not.

* `Process.TargetsExist`: every flow and every error event leads to an element.
* `returns_directedColouredTraverse`, `returns_findElementsReferencingUndefinedVars`: the calls
  return, by induction on the elements that have not been visited.
* `traversals_terminate`: both checks end, and the number of elements bounds their depth.
-/

namespace SharWorkflow

open Graph List Parsed

namespace Process

/-- Every flow and every error event of an element leads to an element. -/
def TargetsExist (p : Process) : Prop :=
  ∀ e ∈ p.allElements, (∀ t ∈ e.targetIds, t ∈ processTable p) ∧
    ∀ c ∈ e.errors, c.target ∈ processTable p

instance (p : Process) : Decidable p.TargetsExist := inferInstanceAs (Decidable (∀ _ ∈ _, _ ∧ _))

end Process

variable {p : Process} {el : Element} {visited : List String} {fuel : Nat}

theorem mem_processTable {t : String} :
    t ∈ processTable p ↔ ∃ e ∈ p.allElements, (processTable p).lookup t = some e := by
  rw [← AList.lookup_isSome, Option.isSome_iff_exists]
  exact ⟨fun ⟨e, he⟩ => ⟨e, Process.mem_of_lookup_processTable he, he⟩, fun ⟨e, _, he⟩ => ⟨e, he⟩⟩

/-! ### The scan of the linter -/

/-- The scan has returned, and has forgotten no element that was visited. -/
def Scanned.Returns (visited : List String) : Scanned → Prop
  | done visited' => visited ⊆ visited'
  | failed _ => True
  | panics => False
  | unfinished => False

theorem Scanned.Returns.mono {visited' : List String} {s : Scanned} (h : s.Returns visited')
    (hsub : visited ⊆ visited') : s.Returns visited := by
  cases s with
  | done visited'' => exact fun t ht => h (hsub ht)
  | failed e => trivial
  | panics => exact h
  | unfinished => exact h

variable {targets : List String}

/-- The scan goes on to elements of the process. -/
theorem mem_of_mem_scanTargets (htargets : p.TargetsExist) (hel : el ∈ p.allElements)
    (hlink : el.type = .linkIntermediateThrowEvent → el.id ∈ processTable p)
    (h : scanTargets (processTable p) el = .ok targets) : ∀ t ∈ targets, t ∈ processTable p := by
  unfold scanTargets at h
  split at h
  · rename_i hthrow
    split at h
    · cases h
      exact fun t ht => mem_singleton.1 ht ▸ hlink hthrow
    · cases h
  · cases h
    exact (htargets el hel).1

theorem returns_scanEach {scan : Element → List String → Scanned}
    (hscan : ∀ target visited, (processTable p).lookup target.id = some target →
      unvisited (processTable p).keys visited < fuel → (scan target visited).Returns visited)
    (htargets : ∀ t ∈ targets, t ∈ processTable p)
    (hfuel : unvisited (processTable p).keys visited < fuel + 1) :
    (scanEach scan (processTable p) targets visited).Returns visited := by
  induction targets generalizing visited with
  | nil => exact List.Subset.refl visited
  | cons t rest ih =>
    obtain ⟨ht, hrest⟩ := forall_mem_cons.1 htargets
    obtain ⟨target, -, htarget⟩ := mem_processTable.1 ht
    obtain rfl : target.id = t := indexed_processTable p _ _ htarget
    rw [scanEach, htarget]
    dsimp only
    split
    · exact List.Subset.refl visited
    · rename_i hnew
      have hless := unvisited_cons_lt (AList.mem_keys.1 ht) hnew
      have hreturns := hscan target (target.id :: visited) htarget (by omega)
      split
      · rename_i visited' hdone
        rw [hdone] at hreturns
        have hsub : visited ⊆ visited' := fun x hx => hreturns (mem_cons_of_mem _ hx)
        exact (ih hrest (Nat.lt_of_le_of_lt (unvisited_mono hsub) hfuel)).mono hsub
      · exact hreturns.mono (subset_cons_self _ _)

/-- **The scan of an element returns**: the fuel is enough for the elements that have not been
visited. -/
theorem returns_directedColouredTraverse (htargets : p.TargetsExist) (hel : el ∈ p.allElements)
    (hlink : el.type = .linkIntermediateThrowEvent → el.id ∈ processTable p)
    (hfuel : unvisited (processTable p).keys visited < fuel) :
    (directedColouredTraverse (processTable p) fuel el visited).Returns visited := by
  induction fuel generalizing el visited with
  | zero => omega
  | succ fuel ih =>
    unfold directedColouredTraverse
    split
    · trivial
    · unfold endOfProcess
      split
      · exact List.Subset.refl visited
      · trivial
    · rename_i targets _ hok
      refine returns_scanEach (fun target visited htarget hfuel => ?_)
        (mem_of_mem_scanTargets htargets hel hlink hok) hfuel
      have hmem := Process.mem_of_lookup_processTable htarget
      exact ih hmem (fun _ => mem_processTable.2 ⟨target, hmem, htarget⟩) hfuel

theorem scanEach_stable {scan scan' : Element → List String → Scanned} {index : GoMap Element}
    (h : ∀ target visited, scan target visited ≠ .unfinished →
      scan' target visited = scan target visited)
    (hdone : scanEach scan index targets visited ≠ .unfinished) :
    scanEach scan' index targets visited = scanEach scan index targets visited := by
  induction targets generalizing visited with
  | nil => rfl
  | cons t rest ih =>
    unfold scanEach at hdone ⊢
    cases hlookup : index.lookup t with
    | none => rfl
    | some target =>
      rw [hlookup] at hdone
      dsimp only at hdone ⊢
      split
      · rfl
      · rename_i hnew
        rw [if_neg hnew] at hdone
        have hscan : scan target (target.id :: visited) ≠ .unfinished := by
          intro hunfinished
          rw [hunfinished] at hdone
          exact hdone rfl
        rw [h _ _ hscan]
        cases hresult : scan target (target.id :: visited) with
        | done visited' =>
          rw [hresult] at hdone
          exact ih hdone
        | _ => rfl

/-- A scan that has returned returns the same with more fuel. -/
theorem directedColouredTraverse_stable {index : GoMap Element}
    (h : directedColouredTraverse index fuel el visited ≠ .unfinished) :
    directedColouredTraverse index (fuel + 1) el visited =
      directedColouredTraverse index fuel el visited := by
  induction fuel generalizing el visited with
  | zero => exact absurd rfl h
  | succ fuel ih =>
    rw [directedColouredTraverse] at h ⊢
    rw [directedColouredTraverse]
    cases htargets : scanTargets index el with
    | error e => rfl
    | ok targets =>
      rw [htargets] at h
      cases targets with
      | nil => rfl
      | cons t rest => exact scanEach_stable (fun _ _ => ih) h

/-! ### The check of the variables -/

section Variables

variable {lib : Lib} {order : MapOrder} {vars : List String}

/-- The variables at an element that is no parallel join are found without a walk. -/
theorem outputVarsAt_eq (hjoin : el.kind ≠ some (.parallel, .convergent)) (fuel : Nat) :
    outputVarsAt order (processTable p) fuel el vars =
      if el.type = .gateway ∧ el.gateway.isNone then .panics
      else .done (vars ++ el.outputTransform.keys ++
        el.errors.flatMap fun catchError => catchError.outputTransform.keys) := by
  unfold outputVarsAt
  dsimp only
  by_cases htype : el.type = .gateway
  · cases hgateway : el.gateway with
    | none => simp [htype]
    | some g =>
      have hnot : ¬(g.direction = .convergent ∧ g.type = .parallel) := by
        rintro ⟨hdirection, hparallel⟩
        exact hjoin (by simp [Element.kind, htype, hgateway, hdirection, hparallel])
      simp [htype, hnot]
  · simp [htype]

theorem returns_outputVarsAt (hel : el ∈ p.allElements)
    (hjoin : el.kind ≠ some (.parallel, .convergent)) :
    (outputVarsAt order (processTable p) fuel el vars).Returns p.GatewaysSpecified := by
  rw [outputVarsAt_eq hjoin]
  split
  · rename_i hnone
    intro hspec
    obtain ⟨g, hg⟩ := hspec el hel hnone.1
    simp [hg] at hnone
  · trivial

/-- The check goes on to elements of the process. -/
theorem returns_outboundsOf {calm : Prop} (order : MapOrder) (htargets : p.TargetsExist)
    (hel : el ∈ p.allElements) : (outboundsOf order (processTable p) el).Returns calm ∧
      ∀ outbounds, outboundsOf order (processTable p) el = .done outbounds →
        ∀ t ∈ outbounds, t ∈ processTable p := by
  have hexist : ∀ t ∈ (el.errors.map fun c => c.target) ++ el.targetIds, t ∈ processTable p := by
    intro t ht
    rcases mem_append.1 ht with ht | ht
    · obtain ⟨c, hc, rfl⟩ := mem_map.1 ht
      exact (htargets el hel).2 c hc
    · exact (htargets el hel).1 t ht
  unfold outboundsOf
  split
  · split
    · rename_i c hc
      refine ⟨trivial, ?_⟩
      rintro _ ⟨⟩ t ht
      rcases mem_append.1 ht with ht | ht
      · exact hexist t ht
      · -- the catch event is an entry of the table
        obtain ⟨⟨id, -, hid⟩, -⟩ := mem_linkCatches.1 (mem_of_getLast? hc)
        rw [mem_singleton.1 ht, indexed_processTable p _ _ hid]
        exact AList.lookup_isSome.1 (by rw [hid]; rfl)
    · exact ⟨trivial, nofun⟩
  · refine ⟨trivial, ?_⟩
    rintro _ ⟨⟩
    exact hexist

end Variables

variable {lib : Lib} {order : String → String → MapOrder} {eleId branchId : String}
  {ctx : BranchContext} {undefined : GoMap (List String)}

/-- **The check of an element returns**: the fuel is enough for the elements that the branch has not
been to. -/
theorem returns_findElementsReferencingUndefinedVars (htargets : p.TargetsExist)
    (hjoins : ∀ e ∈ p.allElements, e.kind ≠ some (.parallel, .convergent))
    (hele : eleId ∈ processTable p)
    (hfuel : unvisited (processTable p).keys (eleId :: ctx.visited) < fuel) :
    (findElementsReferencingUndefinedVars lib order (processTable p) fuel eleId ctx branchId
      undefined).Returns p.GatewaysSpecified := by
  induction fuel generalizing eleId ctx branchId undefined with
  | zero => omega
  | succ fuel ih =>
    obtain ⟨el, hel, hlookup⟩ := mem_processTable.1 hele
    rw [findElementsReferencingUndefinedVars, hlookup, deref_some, done_bind]
    split
    · trivial
    · refine (returns_outputVarsAt hel (hjoins el hel)).bind fun vars _ => ?_
      refine (Parsed.Returns.foldlM
        (fun _ _ _ => by unfold checkUndefinedVarReference; split <;> trivial) _).bind
        fun undefined _ => ?_
      obtain ⟨hreturns, hmem⟩ := returns_outboundsOf (order branchId eleId) htargets hel
      refine hreturns.bind fun outbounds houts => Parsed.Returns.foldlM (fun o ho undefined => ?_) _
      split
      · trivial
      · rename_i hnew
        have hout := hmem outbounds houts o.1 (fst_mem_of_mem_zipIdx ho)
        have hless := unvisited_cons_lt (AList.mem_keys.1 hout) hnew
        exact ih hout (by dsimp only; omega)

/-- A check that has returned returns the same with more fuel. -/
theorem findElementsReferencingUndefinedVars_stable {calm : Prop}
    (hjoins : ∀ e ∈ p.allElements, e.kind ≠ some (.parallel, .convergent))
    (h : (findElementsReferencingUndefinedVars lib order (processTable p) fuel eleId ctx branchId
      undefined).Returns calm) :
    findElementsReferencingUndefinedVars lib order (processTable p) (fuel + 1) eleId ctx branchId
        undefined =
      findElementsReferencingUndefinedVars lib order (processTable p) fuel eleId ctx branchId
        undefined := by
  induction fuel generalizing eleId ctx branchId undefined with
  | zero => exact absurd h id
  | succ fuel ih =>
    rw [findElementsReferencingUndefinedVars] at h ⊢
    rw [findElementsReferencingUndefinedVars]
    cases hlookup : (processTable p).lookup eleId with
    | none => rfl
    | some el =>
      rw [hlookup, deref_some, done_bind] at h
      rw [deref_some, done_bind, done_bind]
      split
      · rfl
      · rename_i hend
        rw [if_neg hend] at h
        have hjoin := hjoins el (Process.mem_of_lookup_processTable hlookup)
        refine bind_congr_of_returns
          (fun _ => (outputVarsAt_eq hjoin _).trans (outputVarsAt_eq hjoin _).symm) h
          fun vars h => ?_
        refine bind_congr_of_returns (fun _ => rfl) h fun undefined h => ?_
        refine bind_congr_of_returns (fun _ => rfl) h fun outbounds h => ?_
        refine foldlM_congr_of_returns (fun o _ undefined h => ?_) h
        split
        · rfl
        · rename_i hnew
          rw [if_neg hnew] at h
          exact ih h

/-- **Both traversals end** on every process whose targets exist, and no call is nested deeper than
there are elements. The scan of the linter starts at a start event, with any elements visited
before; the check of the variables ends if there is no parallel join, and panics only at a gateway
without a specification. -/
theorem traversals_terminate (p : Process) (htargets : p.TargetsExist) :
    (∀ start ∈ findProcessStarts p, ∀ visited, Concludes
      (fun fuel => directedColouredTraverse (processTable p) fuel start visited)
      ((processTable p).keys.length + 1) (Scanned.Returns visited)) ∧
    ((∀ e ∈ p.allElements, e.kind ≠ some (.parallel, .convergent)) →
      ∀ lib order, ∀ eleId ∈ processTable p, ∀ ctx branchId undefined, Concludes
        (fun fuel => findElementsReferencingUndefinedVars lib order (processTable p) fuel eleId ctx
          branchId undefined)
        ((processTable p).keys.length + 1) (Parsed.Returns p.GatewaysSpecified)) := by
  have hfuel : ∀ visited, unvisited (processTable p).keys visited <
      (processTable p).keys.length + 1 :=
    fun visited => Nat.lt_succ_of_le (List.length_filter_le ..)
  refine ⟨fun start hstart visited => ?_,
    fun hjoins lib order eleId hele ctx branchId undefined => ?_⟩
  · obtain ⟨hmem, htype⟩ := List.mem_filter.1 hstart
    refine concludes_of_stable ?_ fun fuel h => directedColouredTraverse_stable ?_
    · refine returns_directedColouredTraverse htargets (List.mem_append_left _ hmem) ?_ (hfuel _)
      intro hthrow
      simp [hthrow] at htype
    · intro hunfinished
      rw [hunfinished] at h
      exact h
  · exact concludes_of_stable
      (returns_findElementsReferencingUndefinedVars htargets hjoins hele (hfuel _))
      fun fuel h => findElementsReferencingUndefinedVars_stable hjoins h

/-- The process with a cycle: five calls are nested at most. -/
theorem traversals_terminate_unfinishedCheck :
    unfinishedCheck.TargetsExist ∧ unfinishedCheck.GatewaysSpecified ∧
    (∀ start ∈ findProcessStarts unfinishedCheck, ∀ visited, Concludes
      (fun fuel => directedColouredTraverse (processTable unfinishedCheck) fuel start visited)
      5 (Scanned.Returns visited)) ∧
    ∀ lib order, Concludes (fun fuel => findElementsReferencingUndefinedVars lib order
        (processTable unfinishedCheck) fuel "start" {} "0" ∅)
      5 (Parsed.Returns unfinishedCheck.GatewaysSpecified) := by
  have htargets : unfinishedCheck.TargetsExist := by decide
  have hends := traversals_terminate unfinishedCheck htargets
  refine ⟨htargets, ?_, hends.1, fun lib order => hends.2 (by decide) lib order "start" ?_ {} "0" ∅⟩
  · simp [Process.GatewaysSpecified, unfinishedCheck, Process.allElements, startTo, taskTo,
      gatewayTo]
  · exact AList.lookup_isSome.1 rfl

end SharWorkflow
