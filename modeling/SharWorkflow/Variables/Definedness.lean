import SharWorkflow.Gateways.CollectedKeys
import SharWorkflow.Linter.DeadEnds
import SharWorkflow.Parser.Validation

/-!
# Variables that are defined on every path

`checkVariables` goes along the paths from the start events and keeps the variables that are defined
on the way. It does not come to every path that a token can take, and it counts more variables than
are defined: at an element also its own outputs and those of **all** its error events, and at a
parallel join what is collected for **any** join of the process.

* `Process.Path`: the paths that a token can take. `Process.Followed`: those that are checked.
* `Process.Defined`: the variables that are defined at the end of a path.
* `Called`: the calls of the check. A path that comes back to an element is covered by the call that
  was there first, which had no more variables (`Called.of_mem_visited`).
* `usesDefined_iff`: in an accepted process every use is defined exactly when those are that the
  check does not look at.
-/

namespace SharWorkflow

open Relation List Parsed AList

/-! ### Paths -/

/-- How a token leaves an element. -/
inductive Way
  | flow
  | error (caught : CatchError)
  | timer
  | link

/-- The elements that a token has left on its way, the last one first, and how. -/
abbrev Trail := List (Element × Way)

namespace Process

/-- A token may leave the element `x` and come to `y`. -/
inductive Leaves (p : Process) (x : Element) : Way → Element → Prop
  | flow {y : Element} {t : String} (mem : t ∈ x.targetIds)
    (lookup : (processTable p).lookup t = some y) : Leaves p x .flow y
  | error {y : Element} {c : CatchError} (mem : c ∈ x.errors)
    (lookup : (processTable p).lookup c.target = some y) : Leaves p x (.error c) y
  | timer {y : Element} {b : Timer} (mem : b ∈ x.boundaryTimer)
    (lookup : (processTable p).lookup b.target = some y) : Leaves p x .timer y
  | link {y : Element} (throw_ : x.type = .linkIntermediateThrowEvent)
    (lookup : (processTable p).lookup y.id = some y) (catch_ : y.isLinkCatch x.execute = true) :
    Leaves p x .link y

/-- A path that a token can take from a start event. -/
inductive Path (p : Process) : Trail → Element → Prop
  | start {s : Element} (h : p.Starts s) : Path p [] s
  | step {trail : Trail} {x y : Element} {w : Way} (h : Path p trail x) (leaves : p.Leaves x w y) :
    Path p ((x, w) :: trail) y

/-- A flow leads from the element with an id to another one. -/
def FlowsTo (p : Process) (x y : String) : Prop :=
  ∃ e, (processTable p).lookup x = some e ∧ y ∈ e.targetIds

/-- A variable is an output on a branch of the split of a parallel join. -/
def BranchOutput (p : Process) (j : Element) (v : String) : Prop :=
  j.kind = some (.parallel, .convergent) ∧ ∃ g, j.gateway = some g ∧
    ∃ y, TransGen p.FlowsTo g.reciprocalId y ∧ TransGen p.FlowsTo y j.id ∧
      HasKey (processTable p) y v

/-- A variable is defined where a path comes to the element `x`: it is an output of an element that
the path has been to, of the error event by which it has left one, or of a branch that meets the
path at a parallel join. -/
def Defined (p : Process) (trail : Trail) (x : Element) (v : String) : Prop :=
  (∃ s ∈ trail, v ∈ s.1.outputTransform ∨ p.BranchOutput s.1 v ∨
    ∃ c, s.2 = .error c ∧ v ∈ c.outputTransform) ∨ p.BranchOutput x v

end Process

/-- The expression uses a variable. -/
def Lib.Uses (lib : Lib) (expr v : String) : Prop :=
  ∃ vars, lib.getVariables expr = .ok vars ∧ v ∈ vars

/-- An input transform of the element uses a variable. -/
def Element.InputUses (lib : Lib) (x : Element) (v : String) : Prop :=
  ∃ input ∈ x.inputTransform.entries, lib.Uses input.2 v

/-- A condition of a flow of the element uses a variable. -/
def Element.ConditionUses (lib : Lib) (x : Element) (v : String) : Prop :=
  ∃ outbound, x.outbound = some outbound ∧ ∃ t ∈ outbound.target, ∃ expr ∈ t.conditions,
    lib.Uses expr v

/-- What the element at the end of a path uses of a variable is defined. A condition is evaluated
when the element is left, with its outputs. -/
def Process.UsesDefined (p : Process) (lib : Lib) (trail : Trail) (x : Element) (v : String) :
    Prop :=
  (x.InputUses lib v → p.Defined trail x v) ∧
    (x.ConditionUses lib v → v ∈ x.outputTransform ∨ p.Defined trail x v)

/-! ### What the check looks at -/

namespace Process

/-- The paths that are checked: from a start event that is not timed, by flows, error events, and
links with one catch event, up to an end event. -/
inductive Followed (p : Process) : Trail → Element → Prop
  | start {s : Element} (mem : s ∈ p.elements) (type : s.type = .startEvent)
    (lookup : (processTable p).lookup s.id = some s) : Followed p [] s
  | step {trail : Trail} {x y : Element} {w : Way} (h : Followed p trail x)
    (not_end : x.type ≠ .endEvent) (leaves : p.Leaves x w y) (not_timer : w ≠ .timer)
    (only : w = .link → ∀ c, (processTable p).lookup c.id = some c →
      c.isLinkCatch x.execute = true → c = y) : Followed p ((x, w) :: trail) y

/-- The check looks at the element at the end of the path. -/
def Checked (p : Process) (trail : Trail) (x : Element) : Prop :=
  p.Followed trail x ∧ x.type ≠ .endEvent

/-- At the element a variable is counted that need not be defined: an output of one of its error
events, or at a parallel join an output of an element after the split of any join. -/
def Leaks (p : Process) (x : Element) (v : String) : Prop :=
  (∃ c ∈ x.errors, v ∈ c.outputTransform) ∨
    (x.kind = some (.parallel, .convergent) ∧ ∃ j d y, JoinOf (processTable p) j d ∧
      TransGen p.FlowsTo d y ∧ HasKey (processTable p) y v)

/-- A variable is counted at the end of a path that need not be defined there. -/
def Leaked (p : Process) (trail : Trail) (x : Element) (v : String) : Prop :=
  v ∈ x.outputTransform ∨ p.Leaks x v ∨ ∃ s ∈ trail, p.Leaks s.1 v

/-- The variables that an element adds to those of a branch. -/
def Adds (p : Process) (x : Element) (v : String) : Prop := v ∈ x.outputTransform ∨ p.Leaks x v

end Process

/-! ### The variables at an element -/

section Variables

variable {p : Process} {order : MapOrder} {fuel : Nat} {x : Element} {V V' : List String}
  {acc r : GoMap String}

theorem mem_collectTargets {j d k : String} {e : Element}
    {find : Element → GoMap String → Parsed (GoMap String)}
    (hd : (processTable p).lookup d = some e)
    (hfind : ∀ d e acc r, (processTable p).lookup d = some e → find e acc = .done r → k ∈ r →
      k ∈ acc ∨ ∃ y, TransGen p.FlowsTo d y ∧ HasKey (processTable p) y k)
    {targets : List Target} (hsub : ∀ t ∈ targets, t.target ∈ e.targetIds)
    (h : collectTargets (processTable p) j find targets acc = .done r) (hk : k ∈ r) :
    k ∈ acc ∨ ∃ y, TransGen p.FlowsTo d y ∧ HasKey (processTable p) y k := by
  induction targets generalizing acc with
  | nil =>
    cases h
    exact .inl hk
  | cons t rest ih =>
    obtain ⟨ht, hrest⟩ := forall_mem_cons.1 hsub
    rw [collectTargets, bind_eq_done] at h
    obtain ⟨targetEle, htarget, h⟩ := h
    rw [deref_eq_done] at htarget
    have hflow : p.FlowsTo d t.target := ⟨e, hd, ht⟩
    -- the keys of the target itself
    have hadded : k ∈ addTransforms acc targetEle.outputTransform →
        k ∈ acc ∨ ∃ y, TransGen p.FlowsTo d y ∧ HasKey (processTable p) y k := by
      rw [mem_addTransforms]
      exact fun hmem => hmem.imp_right fun hkey =>
        ⟨t.target, .single hflow, targetEle, htarget, hkey⟩
    split at h
    · cases h
      exact hadded hk
    · obtain ⟨acc', hfound, h⟩ := bind_eq_done.1 h
      rcases ih hrest h with hmem | hlater
      · rcases hfind _ _ _ _ htarget hfound hmem with hmem | ⟨y, hy, hkey⟩
        · exact hadded hmem
        · exact .inr ⟨y, .head hflow hy, hkey⟩
      · exact .inr hlater

/-- What is collected from a split are outputs of elements after it. -/
theorem mem_findGatewayBranchOutputTransforms {j d k : String} {e : Element}
    (hd : (processTable p).lookup d = some e)
    (h : findGatewayBranchOutputTransforms (processTable p) j fuel e acc = .done r) (hk : k ∈ r) :
    k ∈ acc ∨ ∃ y, TransGen p.FlowsTo d y ∧ HasKey (processTable p) y k := by
  induction fuel generalizing d e acc r with
  | zero => cases h
  | succ fuel ih =>
    rw [findGatewayBranchOutputTransforms, bind_eq_done] at h
    obtain ⟨outbound, hout, h⟩ := h
    rw [deref_eq_done] at hout
    refine mem_collectTargets hd (fun d e acc r hd hr hk => ih hd hr hk) (fun t ht => ?_) h hk
    rw [Element.targetIds, hout]
    exact mem_map_of_mem ht

/-- The variables at a join: those before, and what is collected for any join. -/
theorem mem_findConvergentGatewayOutputTransforms
    (h : findConvergentGatewayOutputTransforms order (fun _ => processTable p) defineKeys fuel V =
      .done V') : V ⊆ V' ∧ ∀ v ∈ V', v ∈ V ∨ ∃ j d y, JoinOf (processTable p) j d ∧
      TransGen p.FlowsTo d y ∧ HasKey (processTable p) y v := by
  obtain ⟨joins, hjoins, h⟩ := bind_eq_done.1 h
  refine foldlM_inv (fun W => V ⊆ W ∧ ∀ v ∈ W, v ∈ V ∨ ∃ j d y,
    JoinOf (processTable p) j d ∧ TransGen p.FlowsTo d y ∧ HasKey (processTable p) y v)
    (fun join hjoin W W' hW hround => ?_) ⟨List.Subset.refl V, fun v hv => .inl hv⟩ h
  obtain ⟨e, he, hround⟩ := bind_eq_done.1 hround
  obtain ⟨transform, htransform, hround⟩ := bind_eq_done.1 hround
  rw [deref_eq_done] at he
  cases hround
  have hlookup : joins.lookup join.1 = some join.2 :=
    mem_lookup_iff.2 ((order.perm joins).mem_iff.1 hjoin)
  have hof := joinOf_of_lookup (indexed_processTable p) hjoins hlookup
  refine ⟨fun v hv => mem_append_left _ (hW.1 hv), fun v hv => ?_⟩
  rcases mem_append.1 hv with hv | hv
  · exact hW.2 v hv
  · rcases mem_findGatewayBranchOutputTransforms he htransform (mem_keys.2 hv) with hnone | hy
    · simp at hnone
    · obtain ⟨y, hy, hkey⟩ := hy
      exact .inr ⟨_, _, y, hof, hy, hkey⟩

/-- **The variables at an element** are those of the branch and those that it adds. -/
theorem mem_outputVarsAt (h : outputVarsAt order (processTable p) fuel x V = .done V') :
    V ⊆ V' ∧ ∀ v ∈ V', v ∈ V ∨ p.Adds x v := by
  obtain ⟨W, hW, h⟩ := bind_eq_done.1 h
  cases h
  have hgateway : V ++ x.outputTransform.keys ⊆ W ∧ ∀ v ∈ W,
      v ∈ V ++ x.outputTransform.keys ∨ p.Leaks x v := by
    have hkept : V ++ x.outputTransform.keys = W → V ++ x.outputTransform.keys ⊆ W ∧ ∀ v ∈ W,
        v ∈ V ++ x.outputTransform.keys ∨ p.Leaks x v := by
      rintro rfl
      exact ⟨List.Subset.refl _, fun v hv => .inl hv⟩
    split at hW
    · rename_i htype
      obtain ⟨g, hg, hW⟩ := bind_eq_done.1 hW
      rw [deref_eq_done] at hg
      split at hW
      · rename_i hjoin
        obtain ⟨hsub, hmem⟩ := mem_findConvergentGatewayOutputTransforms hW
        have hkind : x.kind = some (.parallel, .convergent) := by
          simp [Element.kind, htype, hg, hjoin]
        exact ⟨hsub, fun v hv => (hmem v hv).imp_right fun hany => .inr ⟨hkind, hany⟩⟩
      · exact hkept (by simpa using hW)
    · exact hkept (by simpa using hW)
  refine ⟨fun v hv => mem_append_left _ (hgateway.1 (mem_append_left _ hv)),
    fun v hv => ?_⟩
  rcases mem_append.1 hv with hv | hv
  · rcases hgateway.2 v hv with hv | hleaks
    · rcases mem_append.1 hv with hv | hv
      · exact .inl hv
      · exact .inr (.inl (mem_keys.2 hv))
    · exact .inr (.inr hleaks)
  · obtain ⟨c, hc, hv⟩ := mem_flatMap.1 hv
    exact .inr (.inr (.inl ⟨c, hc, mem_keys.2 hv⟩))

end Variables

/-! ### The calls of the check -/

section Calls

variable {lib : Lib} {undefined : GoMap (List String)} {eleId : String} {vars : List String}

theorem foldl_addUndefined_eq_empty (h : vars.foldl (addUndefined eleId) undefined = ∅) :
    vars = [] ∧ undefined = ∅ := by
  induction vars generalizing undefined with
  | nil => exact ⟨rfl, h⟩
  | cons v vars ih =>
    obtain ⟨-, hempty⟩ := ih h
    have hmem : eleId ∈ addUndefined eleId undefined v := (mem_insert _).2 (.inl rfl)
    rw [hempty] at hmem
    simp at hmem

/-- An expression that adds no undefined variable uses defined ones. -/
theorem checkUndefinedVarReference_eq_empty {expr : String}
    (h : checkUndefinedVarReference lib eleId vars undefined expr = .done ∅) :
    undefined = ∅ ∧ ∀ v, lib.Uses expr v → v ∈ vars := by
  unfold checkUndefinedVarReference at h
  split at h
  · rename_i used hused
    obtain ⟨hnone, hempty⟩ := foldl_addUndefined_eq_empty (Parsed.done.inj h)
    refine ⟨hempty, fun v ⟨used', hused', hv⟩ => ?_⟩
    obtain rfl : used = used' := by
      rw [hused] at hused'
      exact Except.ok.inj hused'
    by_contra hnot
    exact filter_eq_nil_iff.1 hnone v hv (by simpa using hnot)
  · cases h

variable {order : String → String → MapOrder} {p : Process}

/-- The branch of an element that follows. -/
def branchOf (branchId : String) (outbounds : List String) (idx : Nat) : String :=
  if outbounds.length > 1 then branchId ++ "-" ++ toString idx else branchId

/-- The call for an element adds no undefined variable. -/
def Clean (lib : Lib) (order : String → String → MapOrder) (p : Process) (fuel : Nat) (x : String)
    (ctx : BranchContext) (branchId : String) : Prop :=
  findElementsReferencingUndefinedVars lib order (processTable p) fuel x ctx branchId ∅ = .done ∅

/-- **A call that adds no undefined variable**: the element uses variables that are counted, and the
calls for the elements that follow add none either. -/
theorem findElementsReferencingUndefinedVars_eq_empty {fuel : Nat} {x branchId : String}
    {ctx : BranchContext}
    (h : findElementsReferencingUndefinedVars lib order (processTable p) fuel x ctx branchId
      undefined = .done ∅) :
    undefined = ∅ ∧ ∃ f e, fuel = f + 1 ∧ (processTable p).lookup x = some e ∧
      (e.type ≠ .endEvent → ∃ vars outbounds,
        outputVarsAt (order branchId x) (processTable p) f e ctx.branchOutputVars = .done vars ∧
        (∀ expr ∈ e.expressions, ∀ v, lib.Uses expr v → v ∈ vars) ∧
        outboundsOf (order branchId x) (processTable p) e = .done outbounds ∧
        ∀ o ∈ outbounds.zipIdx, o.1 ∉ x :: ctx.visited →
          Clean lib order p f o.1 ⟨vars, x :: ctx.visited⟩ (branchOf branchId outbounds o.2)) := by
  induction fuel generalizing x ctx branchId undefined with
  | zero => cases h
  | succ f ih =>
    rw [findElementsReferencingUndefinedVars, bind_eq_done] at h
    obtain ⟨e, he, h⟩ := h
    rw [deref_eq_done] at he
    split at h
    · rename_i hend
      exact ⟨Parsed.done.inj h, f, e, rfl, he, fun hnot => absurd hend hnot⟩
    · obtain ⟨vars, hvars, h⟩ := bind_eq_done.1 h
      obtain ⟨undefined', hchecked, h⟩ := bind_eq_done.1 h
      obtain ⟨outbounds, houts, h⟩ := bind_eq_done.1 h
      -- the last loop, and then the one before it
      obtain ⟨rfl, hcalls⟩ := foldlM_back (fun o _ undefined hround => by
        split at hround
        · exact Parsed.done.inj hround
        · exact (ih hround).1) h
      obtain ⟨rfl, hexprs⟩ := foldlM_back
        (fun expr _ undefined hround => (checkUndefinedVarReference_eq_empty hround).1) hchecked
      refine ⟨rfl, f, e, rfl, he, fun _ => ⟨vars, outbounds, hvars, fun expr hexpr => ?_, houts,
        fun o ho hnew => ?_⟩⟩
      · exact (checkUndefinedVarReference_eq_empty (hexprs expr hexpr)).2
      · have hcall := hcalls o ho
        rw [if_neg hnew] at hcall
        exact hcall

/-- An accepted process: the calls for the start events add no undefined variable. -/
theorem clean_of_checkVariables {fuel : Nat} (h : checkVariables lib order fuel p = .done ()) :
    ∀ start ∈ (findElementIdsWithType .startEvent p.elements).zipIdx,
      Clean lib order p fuel start.1 {} (toString start.2) := by
  obtain ⟨undefined, hfold, h⟩ := bind_eq_done.1 h
  have hempty : undefined = ∅ := by
    split at h
    · cases h
    · rename_i hlength
      refine AList.ext (eq_nil_of_length_eq_zero ?_)
      omega
  subst hempty
  obtain ⟨-, hstarts⟩ := foldlM_back (fun start _ undefined hround =>
    (findElementsReferencingUndefinedVars_eq_empty (wrapErr_eq_done.1 hround)).1) hfold
  exact fun start hstart => wrapErr_eq_done.1 (hstarts start hstart)

/-- The calls of the check of a process. -/
inductive Called (lib : Lib) (order : String → String → MapOrder) (p : Process) (fuel₀ : Nat) :
    Nat → String → BranchContext → String → Prop
  | start {s : String} {idx : Nat}
    (mem : (s, idx) ∈ (findElementIdsWithType .startEvent p.elements).zipIdx) :
    Called lib order p fuel₀ fuel₀ s {} (toString idx)
  | next {fuel idx : Nat} {x y branchId : String} {ctx : BranchContext} {e : Element}
    {vars outbounds : List String} (h : Called lib order p fuel₀ (fuel + 1) x ctx branchId)
    (lookup : (processTable p).lookup x = some e) (not_end : e.type ≠ .endEvent)
    (vars_eq : outputVarsAt (order branchId x) (processTable p) fuel e ctx.branchOutputVars =
      .done vars)
    (outbounds_eq : outboundsOf (order branchId x) (processTable p) e = .done outbounds)
    (mem : (y, idx) ∈ outbounds.zipIdx) (new : y ∉ x :: ctx.visited) :
    Called lib order p fuel₀ fuel y ⟨vars, x :: ctx.visited⟩ (branchOf branchId outbounds idx)

variable {fuel₀ fuel : Nat} {x branchId : String} {ctx : BranchContext}

/-- In an accepted process no call adds an undefined variable. -/
theorem Called.clean (h : Called lib order p fuel₀ fuel x ctx branchId)
    (haccepts : checkVariables lib order fuel₀ p = .done ()) :
    Clean lib order p fuel x ctx branchId := by
  induction h with
  | start mem => exact clean_of_checkVariables haccepts _ mem
  | next h lookup not_end vars_eq outbounds_eq mem new ih =>
    obtain ⟨-, f, e, hf, he, hcalls⟩ := findElementsReferencingUndefinedVars_eq_empty ih
    cases hf
    rw [lookup] at he
    cases he
    obtain ⟨vars, outbounds, hvars, -, houts, hcalls⟩ := hcalls not_end
    rw [vars_eq] at hvars
    rw [outbounds_eq] at houts
    cases hvars
    cases houts
    exact hcalls _ mem new

/-- An element that a branch has been to has been called for with no more variables. -/
theorem Called.of_mem_visited (h : Called lib order p fuel₀ fuel x ctx branchId) {z : String}
    (hz : z ∈ ctx.visited) :
    ∃ fuel' ctx' branchId', Called lib order p fuel₀ fuel' z ctx' branchId' ∧
      ctx'.branchOutputVars ⊆ ctx.branchOutputVars := by
  induction h with
  | start mem => cases hz
  | next h lookup not_end vars_eq outbounds_eq mem new ih =>
    have hsub := (mem_outputVarsAt vars_eq).1
    rcases mem_cons.1 hz with rfl | hz
    · exact ⟨_, _, _, h, hsub⟩
    · obtain ⟨fuel', ctx', branchId', hcalled, hvars⟩ := ih hz
      exact ⟨fuel', ctx', branchId', hcalled, fun v hv => hsub (hvars hv)⟩

/-- The check goes on to the elements that a path that it follows comes to. -/
theorem mem_outboundsOf {e y : Element} {w : Way} {o : MapOrder} {outbounds : List String}
    (hleaves : p.Leaves e w y) (hw : w ≠ .timer)
    (honly : w = .link → ∀ c, (processTable p).lookup c.id = some c →
      c.isLinkCatch e.execute = true → c = y)
    (h : outboundsOf o (processTable p) e = .done outbounds) : y.id ∈ outbounds := by
  have hindexed := indexed_processTable p
  have hsub : (e.errors.map fun c => c.target) ++ e.targetIds ⊆ outbounds := by
    unfold outboundsOf at h
    split at h
    · split at h
      · cases h
        exact subset_append_left _ _
      · cases h
    · cases h
      exact List.Subset.refl _
  cases hleaves with
  | flow mem lookup => exact hsub (mem_append_right _ (hindexed _ _ lookup ▸ mem))
  | @error _ c mem lookup =>
    have hmem : c.target ∈ e.errors.map fun c => c.target := mem_map_of_mem mem
    exact hsub (mem_append_left _ (hindexed _ _ lookup ▸ hmem))
  | timer mem lookup => exact absurd rfl hw
  | link throw_ lookup catch_ =>
    unfold outboundsOf at h
    rw [if_pos throw_] at h
    split at h
    · rename_i c hc
      cases h
      obtain ⟨⟨id, -, hid⟩, hcatch⟩ := mem_linkCatches.1 (mem_of_getLast? hc)
      obtain rfl := hindexed _ _ hid
      rw [honly rfl c hid hcatch]
      exact mem_append_right _ (mem_singleton_self _)
    · cases h

/-- **Every path that is followed** ends in an element that is called for, with variables that the
elements on the path have added. -/
theorem exists_called {trail : Trail} {e : Element} (h : p.Followed trail e)
    (haccepts : checkVariables lib order fuel₀ p = .done ()) :
    (processTable p).lookup e.id = some e ∧ ∃ fuel ctx branchId,
      Called lib order p fuel₀ fuel e.id ctx branchId ∧
        ∀ v ∈ ctx.branchOutputVars, ∃ s ∈ trail, p.Adds s.1 v := by
  induction h with
  | @start s mem type lookup =>
    have hstart : s.id ∈ findElementIdsWithType .startEvent p.elements :=
      mem_map.2 ⟨s, mem_filter.2 ⟨mem, by simpa using type⟩, rfl⟩
    obtain ⟨idx, hidx⟩ := mem_iff_getElem?.1 hstart
    exact ⟨lookup, _, _, _, .start (mk_mem_zipIdx_iff_getElem?.2 hidx), forall_mem_nil _⟩
  | @step trail x y w h not_end leaves not_timer only ih =>
    obtain ⟨hx, fuel, ctx, branchId, hcalled, hctx⟩ := ih
    have hy : (processTable p).lookup y.id = some y := by
      cases leaves with
      | flow mem lookup => rwa [indexed_processTable p _ _ lookup]
      | error mem lookup => rwa [indexed_processTable p _ _ lookup]
      | timer mem lookup => rwa [indexed_processTable p _ _ lookup]
      | link throw_ lookup catch_ => exact lookup
    have htrail : ∀ v ∈ ctx.branchOutputVars, ∃ s ∈ (x, w) :: trail, p.Adds s.1 v := by
      intro v hv
      obtain ⟨s, hs, hadds⟩ := hctx v hv
      exact ⟨s, mem_cons_of_mem _ hs, hadds⟩
    obtain ⟨-, f, e, rfl, he, hcalls⟩ :=
      findElementsReferencingUndefinedVars_eq_empty (hcalled.clean haccepts)
    rw [hx] at he
    cases he
    obtain ⟨vars, outbounds, hvars, -, houts, -⟩ := hcalls not_end
    by_cases hvisited : y.id ∈ x.id :: ctx.visited
    · -- the path comes back to an element that has been called for before
      rcases mem_cons.1 hvisited with heq | hvisited
      · rw [heq]
        exact ⟨by rw [← heq]; exact hy, _, _, _, hcalled, htrail⟩
      · obtain ⟨fuel', ctx', branchId', hcalled', hsub⟩ := hcalled.of_mem_visited hvisited
        exact ⟨hy, fuel', ctx', branchId', hcalled', fun v hv => htrail v (hsub hv)⟩
    · obtain ⟨idx, hidx⟩ :=
        mem_iff_getElem?.1 (mem_outboundsOf leaves not_timer only houts)
      refine ⟨hy, f, _, _, .next hcalled hx not_end hvars houts
        (mk_mem_zipIdx_iff_getElem?.2 hidx) hvisited, fun v hv => ?_⟩
      rcases (mem_outputVarsAt hvars).2 v hv with hold | hadds
      · exact htrail v hold
      · exact ⟨(x, w), mem_cons_self, hadds⟩

end Calls

variable {v : String}

theorem Element.InputUses.exists_mem {lib : Lib} {x : Element} (h : x.InputUses lib v) :
    ∃ expr ∈ x.expressions, lib.Uses expr v := by
  obtain ⟨input, hinput, huses⟩ := h
  exact ⟨input.2, mem_append_left _ (mem_map.2 ⟨input, hinput, rfl⟩), huses⟩

theorem Element.ConditionUses.exists_mem {lib : Lib} {x : Element} (h : x.ConditionUses lib v) :
    ∃ expr ∈ x.expressions, lib.Uses expr v := by
  obtain ⟨outbound, hout, t, ht, expr, hexpr, huses⟩ := h
  refine ⟨expr, mem_append_right _ ?_, huses⟩
  rw [hout]
  exact mem_flatMap.2 ⟨t, ht, hexpr⟩

/-- What is used at the end of a path that is checked is defined or counted by mistake. -/
theorem defined_or_leaked {lib : Lib} {order : String → String → MapOrder} {fuel : Nat}
    {p : Process} (haccepts : checkVariables lib order fuel p = .done ()) {trail : Trail}
    {x : Element} (hchecked : p.Checked trail x) (huses : ∃ expr ∈ x.expressions, lib.Uses expr v) :
    p.Defined trail x v ∨ p.Leaked trail x v := by
  obtain ⟨hx, fuel', ctx, branchId, hcalled, hctx⟩ := exists_called hchecked.1 haccepts
  obtain ⟨-, f, e, rfl, he, hcalls⟩ :=
    findElementsReferencingUndefinedVars_eq_empty (hcalled.clean haccepts)
  rw [hx] at he
  cases he
  obtain ⟨vars, outbounds, hvars, hexprs, -⟩ := hcalls hchecked.2
  obtain ⟨expr, hexpr, huses⟩ := huses
  rcases (mem_outputVarsAt hvars).2 v (hexprs expr hexpr v huses) with hold | hown | hleaks
  · obtain ⟨s, hs, houtput | hleaks⟩ := hctx v hold
    · exact .inl (.inl ⟨s, hs, .inl houtput⟩)
    · exact .inr (.inr (.inr ⟨s, hs, hleaks⟩))
  · exact .inr (.inl hown)
  · exact .inr (.inr (.inl hleaks))

/-- **Every use in an accepted process is defined** exactly when it is on the paths that are not
checked and for the variables that are counted by mistake. -/
theorem usesDefined_iff (lib : Lib) (order : String → String → MapOrder) (fuel : Nat) (p : Process)
    (haccepts : checkVariables lib order fuel p = .done ()) :
    (∀ trail x, p.Path trail x → ∀ v, p.UsesDefined lib trail x v) ↔
      ∀ trail x, p.Path trail x → ∀ v, ¬p.Checked trail x ∨ p.Leaked trail x v →
        p.UsesDefined lib trail x v := by
  constructor
  · intro h trail x hpath v _
    exact h trail x hpath v
  · intro h trail x hpath v
    by_cases hcase : ¬p.Checked trail x ∨ p.Leaked trail x v
    · exact h trail x hpath v hcase
    · rw [not_or, not_not] at hcase
      obtain ⟨hchecked, hnot⟩ := hcase
      have hdefined : (∃ expr ∈ x.expressions, lib.Uses expr v) → p.Defined trail x v :=
        fun huses => (defined_or_leaked haccepts hchecked huses).resolve_right hnot
      exact ⟨fun hinput => hdefined hinput.exists_mem,
        fun hcondition => .inr (hdefined hcondition.exists_mem)⟩

/-- An engine for which every expression uses the variable `order`. -/
def pricingLib : Lib := { constLib ∅ with getVariables := fun _ => .ok ["order"] }

/-- A task that reads a variable. -/
def shipTask : Element :=
  { taskTo "ship" "end" with inputTransform := AList.singleton "order" "=order" }

/-- A process in which the variable is written before it is read. -/
def shipping : Process :=
  { id := "shipping"
    elements := [startTo "start" "price", writerTo "price" "ship" "order", shipTask, endAt "end"] }

theorem usesDefined_iff_shipping :
    (∃ trail, shipping.Path trail shipTask ∧ shipTask.InputUses pricingLib "order" ∧
      shipping.Defined trail shipTask "order") ∧
    ((∀ trail x, shipping.Path trail x → ∀ v, shipping.UsesDefined pricingLib trail x v) ↔
      ∀ trail x, shipping.Path trail x → ∀ v,
        ¬shipping.Checked trail x ∨ shipping.Leaked trail x v →
          shipping.UsesDefined pricingLib trail x v) := by
  refine ⟨⟨[(writerTo "price" "ship" "order", .flow), (startTo "start" "price", .flow)], ?_,
    ?_, ?_⟩, usesDefined_iff pricingLib (fun _ _ => .listed) 8 shipping rfl⟩
  · exact .step (.step (.start ⟨List.mem_cons_self, .inl rfl⟩)
      (.flow (t := "price") (by decide) rfl)) (.flow (t := "ship") (by decide) rfl)
  · exact ⟨⟨"order", "=order"⟩, List.mem_cons_self, ["order"], rfl, by decide⟩
  · exact .inl ⟨_, List.mem_cons_self, .inl (by decide)⟩

/-- A task that reads the variable that it writes. -/
def priceTask : Element :=
  { writerTo "price" "end" "order" with inputTransform := AList.singleton "order" "=order" }

/-- A process with that task only. -/
def ownOutput : Process :=
  { id := "ownOutput", elements := [startTo "start" "price", priceTask, endAt "end"] }

/-- The task is accepted, and its input is not defined by any element before it. -/
theorem ownOutput_accepted : checkVariables pricingLib (fun _ _ => .listed) 4 ownOutput = .done () ∧
      ownOutput.Path [(startTo "start" "price", .flow)] priceTask ∧
      priceTask.InputUses pricingLib "order" ∧
      ¬ownOutput.Defined [(startTo "start" "price", .flow)] priceTask "order" := by
  refine ⟨rfl,
    .step (.start ⟨List.mem_cons_self, .inl rfl⟩) (.flow (t := "price") (by decide) rfl),
    ⟨⟨"order", "=order"⟩, List.mem_cons_self, ["order"], rfl, by decide⟩, ?_⟩
  rintro (⟨s, hs, houtput | ⟨hkind, -⟩ | ⟨c, hc, -⟩⟩ | ⟨hkind, -⟩)
  · obtain rfl := List.mem_singleton.1 hs
    exact absurd houtput (by decide)
  · obtain rfl := List.mem_singleton.1 hs
    cases hkind
  · obtain rfl := List.mem_singleton.1 hs
    cases hc
  · cases hkind

end SharWorkflow
