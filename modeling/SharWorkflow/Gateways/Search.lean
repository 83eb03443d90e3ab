import SharWorkflow.Graph.Counter
import SharWorkflow.Parser.Tagger

/-!
# The search for the split that opens a join

`recurseRecip` walks against the flows from a join. On its way it keeps a **count**: one more at
each other join of the same type, one less at each split of that type, and at a split with nothing
left to take off it stops (`Process.entered`). It remembers no element that it has been to, so that
it comes to an end exactly when no walk of it is infinite.

* `recurseRecip_spec`: a search that ends has gone everywhere its walks lead, and found what they
  lead to.
* `recurseRecip_terminates_iff`: it ends unless some walk comes back to an element with a count that
  is no smaller.
-/

namespace SharWorkflow

open Relation List Parsed Process AList

/-! ### References and pointers -/

/-- The ids of the elements with a flow to `id`, one for each flow. -/
def predecessors (elements : List Element) (id : String) : List String :=
  elements.flatMap fun el => List.replicate (el.targetIds.count id) el.id

variable {id : String}

theorem mem_predecessors {elements : List Element} {next : String} :
    next ∈ predecessors elements id ↔ ∃ el ∈ elements, id ∈ el.targetIds ∧ el.id = next := by
  simp only [predecessors, mem_flatMap, mem_replicate, ne_eq, count_eq_zero,
    not_not]
  constructor
  · rintro ⟨el, hel, hid, rfl⟩
    exact ⟨el, hel, hid, rfl⟩
  · rintro ⟨el, hel, hid, rfl⟩
    exact ⟨el, hel, hid, rfl⟩

theorem lookup_addReference (refs : GoMap (List String)) (targets : List String) (el id : String) :
    (targets.foldl (fun refs elementId =>
      refs.insert elementId ((refs.lookup elementId).getD [] ++ [el])) refs).lookup id =
      if targets.count id = 0 then refs.lookup id
      else some ((refs.lookup id).getD [] ++ List.replicate (targets.count id) el) := by
  induction targets generalizing refs with
  | nil => simp
  | cons t targets ih =>
    rw [foldl_cons, ih]
    by_cases ht : t = id
    · subst ht
      simp only [lookup_insert, count_cons_self, Option.getD_some]
      by_cases hzero : targets.count t = 0
      · simp [hzero]
      · simp [hzero, replicate_succ]
    · rw [lookup_insert_ne (Ne.symm ht), count_cons_of_ne ht]

theorem lookup_foldl_addReferences (refs : GoMap (List String)) (elements : List Element)
    (id : String) : (elements.foldl addReferences refs).lookup id =
      if predecessors elements id = [] then refs.lookup id
      else some ((refs.lookup id).getD [] ++ predecessors elements id) := by
  induction elements generalizing refs with
  | nil => simp [predecessors]
  | cons el elements ih =>
    rw [foldl_cons, ih, addReferences, lookup_addReference]
    have hcons : predecessors (el :: elements) id =
        List.replicate (el.targetIds.count id) el.id ++ predecessors elements id := rfl
    rw [hcons]
    by_cases hel : el.targetIds.count id = 0
    · simp [hel]
    · have hne : List.replicate (el.targetIds.count id) el.id ≠ [] := by simp [hel]
      by_cases hrest : predecessors elements id = []
      · simp [hel, hrest]
      · simp [hel, hrest]

/-- What `getElementIdReferences` has for an id: nothing, if no flow leads to it. -/
theorem lookup_getElementIdReferences (p : Process) (id : String) :
    (getElementIdReferences p).lookup id =
      if predecessors p.elements id = [] then none else some (predecessors p.elements id) := by
  rw [getElementIdReferences, lookup_foldl_addReferences]
  simp

/-- How many flows lead to an id. -/
theorem getD_getElementIdReferences (p : Process) (id : String) :
    ((getElementIdReferences p).lookup id).getD [] = predecessors p.elements id := by
  rw [lookup_getElementIdReferences]
  split
  · rename_i hnil
    rw [hnil]
    rfl
  · rfl

/-- The pointers that are indexed in the given order. -/
def pointersOf (order : List (Element × Nat)) : GoMap Nat :=
  order.foldl (fun els i => els.insert i.1.id i.2) ∅

theorem pointersOf_append (order : List (Element × Nat)) (i : Element × Nat) :
    pointersOf (order ++ [i]) = (pointersOf order).insert i.1.id i.2 := by
  simp [pointersOf]

variable {p : Process}

/-- A pointer that is indexed under an id leads to an element of that id. -/
theorem getElem?_of_lookup_indexPointers {i : Nat} (h : (indexPointers p).lookup id = some i) :
    ∃ e, p.allElements[i]? = some e ∧ e.id = id := by
  have hmem : ∀ order, (pointersOf order).lookup id = some i → ∃ e, (e, i) ∈ order ∧ e.id = id := by
    intro order h
    induction order using List.reverseRecOn with
    | nil => simp [pointersOf] at h
    | append_singleton order last ih =>
      rw [pointersOf_append] at h
      by_cases hid : id = last.1.id
      · subst hid
        rw [lookup_insert, Option.some.injEq] at h
        exact ⟨last.1, by simp [← h], rfl⟩
      · rw [lookup_insert_ne hid] at h
        obtain ⟨e, he, hid'⟩ := ih h
        exact ⟨e, mem_append_left _ he, hid'⟩
  obtain ⟨e, he, hid⟩ := hmem p.indexOrder h
  exact ⟨e, Process.mem_indexOrder.1 he, hid⟩

variable {e : Element}

/-- Every element is indexed under its id, or another one of that id is. -/
theorem exists_lookup_indexPointers (he : e ∈ p.allElements) :
    ∃ i, (indexPointers p).lookup e.id = some i := by
  have hmem : ∀ order, ∀ i ∈ order, ∃ j, (pointersOf order).lookup i.1.id = some j := by
    intro order i hi
    induction order using List.reverseRecOn with
    | nil => simp at hi
    | append_singleton order last ih =>
      rw [pointersOf_append]
      by_cases hid : i.1.id = last.1.id
      · exact ⟨last.2, by rw [hid, lookup_insert]⟩
      · rw [lookup_insert_ne hid]
        refine ih ((mem_append.1 hi).resolve_right fun hlast => hid ?_)
        rw [mem_singleton.1 hlast]
  obtain ⟨i, hi⟩ := mem_iff_getElem?.1 he
  exact hmem p.indexOrder (e, i) (Process.mem_indexOrder.2 hi)

/-! ### The graph of a process -/

/-- The type and the direction of a gateway. -/
def Element.kind (e : Element) : Option (GatewayType × GatewayDirection) :=
  if e.type = .gateway then e.gateway.map fun g => (g.type, g.direction) else none

/-- The id of the element behind a pointer. -/
def idAt (els : List Element) (x : Nat) : Option String := els[x]?.map (·.id)

/-- The type and the direction of the gateway behind a pointer. -/
def kindAt (els : List Element) (x : Nat) : Option (GatewayType × GatewayDirection) :=
  els[x]?.bind (·.kind)

variable {x : Nat} {c : Nat × Nat} {s : Nat} {result r : List String}

namespace Process

variable (p : Process)

/-- The pointer behind an id. -/
def pointer (id : String) : Option Nat := (indexPointers p).lookup id

/-- A flow leads from the element behind `y` to the one behind `x`. -/
def Flow (y x : Nat) : Prop :=
  ∃ el ∈ p.elements, ∃ e,
    p.allElements[x]? = some e ∧ e.id ∈ el.targetIds ∧ p.pointer el.id = some y

/-- The element behind `x` is a join. -/
def IsJoin (x : Nat) : Prop := ∃ type, kindAt p.elements x = some (type, .convergent)

/-- The count of joins that a search from the join `gw` leaves an element with. It is one more at
another join of the type of `gw`, and one less at a split of that type, where the search stops if
there is none to take off. -/
def entered (gw x stack : Nat) : Option Nat :=
  match kindAt p.allElements gw, kindAt p.allElements x with
  | some (type, _), some (type', direction) =>
    if gw ≠ x ∧ type = type' then
      match direction with
      | .convergent => some (stack + 1)
      | .divergent => if stack = 0 then none else some (stack - 1)
    else some stack
  | _, _ => some stack

/-- One step of the search from `gw`, against a flow. -/
def BackStep (gw : Nat) (c d : Nat × Nat) : Prop :=
  p.entered gw c.1 c.2 = some d.2 ∧ p.Flow d.1 c.1

/-- What the search from `gw` finds at the end of a walk: a split, or that no flow leads on. -/
def EndsAt (gw : Nat) (c : Nat × Nat) (id : String) : Prop :=
  match p.entered gw c.1 c.2 with
  | none => idAt p.allElements c.1 = some id
  | some _ => (∀ y, ¬p.Flow y c.1) ∧ id = nullId

/-- What the search from `gw` finds from an element on. -/
def Finds (gw : Nat) (c : Nat × Nat) (id : String) : Prop :=
  ∃ d, ReflTransGen (p.BackStep gw) c d ∧ p.EndsAt gw d id

/-- Every element of the gateway type has the specification of a gateway, as the parser builds
them. -/
def GatewaysSpecified : Prop := ∀ e ∈ p.allElements, e.type = .gateway → ∃ g, e.gateway = some g

/-- The gateways of a process as the parser builds them: with a specification that names no other
gateway. -/
structure AsParsed : Prop where
  specified : p.GatewaysSpecified
  unpaired : ∀ e ∈ p.allElements, ∀ g, e.gateway = some g → g.reciprocalId = ""

variable {p}

theorem Flow.lt {y : Nat} (h : p.Flow y x) : y < p.allElements.length := by
  obtain ⟨el, -, e, -, -, hy⟩ := h
  obtain ⟨e', he', -⟩ := getElem?_of_lookup_indexPointers hy
  exact (List.getElem?_eq_some_iff.1 he').1

/-- The flows that lead to an element are those that are referenced under its id. -/
theorem flow_iff {y : Nat} (he : p.allElements[x]? = some e) :
    p.Flow y x ↔ ∃ next ∈ predecessors p.elements e.id, p.pointer next = some y := by
  simp only [Flow, mem_predecessors, he, Option.some.injEq]
  constructor
  · rintro ⟨el, hel, e, rfl, hid, hy⟩
    exact ⟨el.id, ⟨el, hel, hid, rfl⟩, hy⟩
  · rintro ⟨next, ⟨el, hel, hid, rfl⟩, hy⟩
    exact ⟨el, hel, e, rfl, hid, hy⟩

/-- An element of the process has a pointer under its id. -/
theorem exists_pointer_of_mem_predecessors {next : String}
    (h : next ∈ predecessors p.elements id) : ∃ y, p.pointer next = some y := by
  obtain ⟨el, hel, -, rfl⟩ := mem_predecessors.1 h
  exact exists_lookup_indexPointers (mem_append_left _ hel)

theorem no_flow_iff (he : p.allElements[x]? = some e) :
    (∀ y, ¬p.Flow y x) ↔ predecessors p.elements e.id = [] := by
  constructor
  · intro hno
    by_contra hne
    obtain ⟨next, hnext⟩ := exists_mem_of_ne_nil _ hne
    obtain ⟨y, hy⟩ := exists_pointer_of_mem_predecessors hnext
    exact hno y ((flow_iff he).2 ⟨next, hnext, hy⟩)
  · intro hnil y hflow
    obtain ⟨next, hnext, -⟩ := (flow_iff he).1 hflow
    simp [hnil] at hnext

/-- A step of the search is possible with any larger count. -/
theorem liftable_backStep (gw : Nat) : Graph.Liftable (p.BackStep gw) := by
  intro x s y t hstep k
  refine ⟨?_, hstep.2⟩
  have hentered := hstep.1
  revert hentered
  unfold entered
  dsimp only
  split
  · split
    · split
      · intro h
        obtain rfl : s + 1 = t := by simpa using h
        simp only [Option.some.injEq]
        omega
      · split
        · exact nofun
        · intro h
          obtain rfl : s - 1 = t := by simpa using h
          rw [if_neg (by omega)]
          simp only [Option.some.injEq]
          omega
    · intro h
      obtain rfl : s = t := by simpa using h
      rfl
  · intro h
    obtain rfl : s = t := by simpa using h
    rfl

/-- The search goes to finitely many elements. -/
theorem finite_backStep (gw : Nat) (c : Nat × Nat) :
    {x | ∃ s, ReflTransGen (p.BackStep gw) c (x, s)}.Finite := by
  refine (Set.finite_Iic (max c.1 p.allElements.length)).subset ?_
  rintro x ⟨s, hreach⟩
  rw [Set.mem_Iic]
  rcases ReflTransGen.cases_tail hreach with heq | ⟨d, -, hstep⟩
  · rw [← heq]
    exact le_max_left _ _
  · exact le_max_of_le_right hstep.2.lt.le

/-- What is found from an element is found there or one step further. -/
theorem finds_iff {gw : Nat} :
    p.Finds gw c id ↔ p.EndsAt gw c id ∨ ∃ d, p.BackStep gw c d ∧ p.Finds gw d id := by
  constructor
  · rintro ⟨e, hreach, hend⟩
    rcases ReflTransGen.cases_head hreach with rfl | ⟨d, hstep, hrest⟩
    · exact .inl hend
    · exact .inr ⟨d, hstep, e, hrest, hend⟩
  · rintro (hend | ⟨d, hstep, e, hreach, hend⟩)
    · exact ⟨c, .refl, hend⟩
    · exact ⟨e, .head hstep hreach, hend⟩

/-- A search that goes no further finds what it ends at. -/
theorem finds_of_no_step {gw : Nat} (hno : ∀ d, ¬p.BackStep gw c d) :
    Acc (flip (p.BackStep gw)) c ∧ ∀ id, p.Finds gw c id ↔ p.EndsAt gw c id := by
  refine ⟨⟨_, fun d hstep => absurd hstep (hno d)⟩, fun id => ?_⟩
  rw [finds_iff]
  simp only [hno, false_and, exists_false, or_false]

/-- A search that stops at an element finds its id. -/
theorem finds_of_entered_eq_none {gw : Nat} {a : String} (h : p.entered gw x s = none)
    (hx : idAt p.allElements x = some a) :
    Acc (flip (p.BackStep gw)) (x, s) ∧ ∀ id, p.Finds gw (x, s) id ↔ id = a := by
  have hno : ∀ d, ¬p.BackStep gw (x, s) d := by
    intro d hstep
    exact absurd (h.symm.trans hstep.1) nofun
  refine ⟨(finds_of_no_step hno).1, fun id => ?_⟩
  rw [(finds_of_no_step hno).2]
  simp [EndsAt, h, hx, eq_comm]

/-- A search that goes on from an element follows the flows into it. -/
theorem backStep_iff {gw s' : Nat} (h : p.entered gw x s = some s') {d : Nat × Nat} :
    p.BackStep gw (x, s) d ↔ p.Flow d.1 x ∧ d.2 = s' := by
  simp only [BackStep, h, Option.some.injEq]
  exact ⟨fun hstep => ⟨hstep.2, hstep.1.symm⟩, fun hstep => ⟨hstep.2.symm, hstep.1⟩⟩

/-- It ends there only if there is none, and then it finds that there is no split. -/
theorem endsAt_iff {gw s' : Nat} (h : p.entered gw x s = some s')
    (he : p.allElements[x]? = some e) :
    p.EndsAt gw (x, s) id ↔ predecessors p.elements e.id = [] ∧ id = nullId := by
  simp only [EndsAt, h, no_flow_iff he]

/-- The loop over the elements before an element: if a call for each of them does what it should,
then so does the loop. -/
theorem finds_of_foldlM {gw s' : Nat} (h : p.entered gw x s = some s')
    (he : p.allElements[x]? = some e) (hne : predecessors p.elements e.id ≠ [])
    {find : Nat → List String → Parsed (List String)}
    (hfind : ∀ y result r, find y result = .done r → Acc (flip (p.BackStep gw)) (y, s') ∧
      ∀ id, id ∈ r ↔ id ∈ result ∨ p.Finds gw (y, s') id)
    (hloop : (predecessors p.elements e.id).foldlM (fun result next => do
      let next ← Parsed.deref (p.pointer next)
      find next result) result = .done r) :
    Acc (flip (p.BackStep gw)) (x, s) ∧ ∀ id, id ∈ r ↔ id ∈ result ∨ p.Finds gw (x, s) id := by
  constructor
  · refine ⟨_, fun d hd => ?_⟩
    obtain ⟨hflow, hcount⟩ := (backStep_iff h).1 hd
    obtain ⟨next, hnext, hy⟩ := (flow_iff he).1 hflow
    obtain ⟨b, b', hround⟩ := foldlM_each hloop hnext
    rw [hy, deref_some, done_bind] at hround
    rw [show d = (d.1, s') from Prod.ext rfl hcount]
    exact (hfind _ _ _ hround).1
  · intro id
    have hmem := mem_foldlM
      (fun next id => ∃ y, p.pointer next = some y ∧ p.Finds gw (y, s') id)
      (fun next hnext b b' hround id => ?_) hloop id
    · rw [hmem, finds_iff, endsAt_iff h he]
      simp only [hne, false_and, false_or, backStep_iff h]
      refine or_congr Iff.rfl ⟨?_, ?_⟩
      · rintro ⟨next, hnext, y, hy, hfinds⟩
        exact ⟨(y, s'), ⟨(flow_iff he).2 ⟨next, hnext, hy⟩, rfl⟩, hfinds⟩
      · rintro ⟨⟨y, t⟩, ⟨hflow, rfl⟩, hfinds⟩
        obtain ⟨next, hnext, hy⟩ := (flow_iff he).1 hflow
        exact ⟨next, hnext, y, hy, hfinds⟩
    · obtain ⟨y, hy⟩ := exists_pointer_of_mem_predecessors hnext
      rw [hy, deref_some, done_bind] at hround
      rw [(hfind _ _ _ hround).2]
      simp [hy]

end Process

/-! ### The search and its walks -/

variable {refs : GoMap (List String)}

section Search

variable {p : Process} {gw : Nat} {kind : GatewayType × GatewayDirection}
  (hspec : p.GatewaysSpecified) (hgw : kindAt p.allElements gw = some kind)

include hspec hgw

/-- The count at an element of the process. -/
theorem enterElement_eq (he : p.allElements[x]? = some e) (stack : Nat) :
    enterElement p.allElements gw x stack = .done (p.entered gw x stack) := by
  obtain ⟨j, hj, hjkind⟩ := Option.bind_eq_some_iff.1 hgw
  have hxkind : kindAt p.allElements x = e.kind := by simp [kindAt, he]
  unfold enterElement Process.entered
  rw [hgw, hxkind]
  unfold Element.kind at hjkind ⊢
  by_cases hjtype : j.type = .gateway
  swap
  · simp [hjtype] at hjkind
  obtain ⟨g, hg, hkind⟩ : ∃ g, j.gateway = some g ∧ (g.type, g.direction) = kind := by
    simpa [hjtype] using hjkind
  subst hkind
  by_cases htype : e.type = .gateway
  · obtain ⟨g', hg'⟩ := hspec e (mem_of_getElem? he) htype
    by_cases hne : gw = x
    · simp [he, hne, htype, hg']
    · by_cases heq : g.type = g'.type
      · cases hdir : g'.direction <;> simp [he, hj, hg, hg', htype, hne, heq, hdir]
      · simp [he, hj, hg, hg', htype, hne, heq]
  · simp [he, htype]

/-- One call of the search. -/
theorem recurseRecip_succ (he : p.allElements[x]? = some e)
    (fuel stack : Nat) (result : List String) :
    recurseRecip p.allElements (getElementIdReferences p) (indexPointers p) gw
        (fuel + 1) x stack result = match p.entered gw x stack with
      | none => .done (result.insert e.id)
      | some stack =>
        if predecessors p.elements e.id = [] then .done (result.insert nullId)
        else (predecessors p.elements e.id).foldlM (fun result next => do
          let next ← Parsed.deref (p.pointer next)
          recurseRecip p.allElements (getElementIdReferences p) (indexPointers p) gw
            fuel next stack result) result := by
  rw [recurseRecip, enterElement_eq hspec hgw he, he]
  simp only [done_bind, deref_some, pure_eq, lookup_getElementIdReferences]
  cases p.entered gw x stack with
  | none => rfl
  | some stack' =>
    dsimp only
    by_cases hnil : predecessors p.elements e.id = []
    · rw [if_pos hnil, if_pos hnil]
    · rw [if_neg hnil, if_neg hnil]
      rfl

/-- **What a search has done that ends**: no walk of it is infinite, and it has found what its walks
lead to. -/
theorem recurseRecip_spec {fuel stack : Nat}
    (h : recurseRecip p.allElements (getElementIdReferences p) (indexPointers p) gw
      fuel x stack result = .done r) : Acc (flip (p.BackStep gw)) (x, stack) ∧
      ∀ id, id ∈ r ↔ id ∈ result ∨ p.Finds gw (x, stack) id := by
  induction fuel generalizing x stack result r with
  | zero => simp [recurseRecip] at h
  | succ fuel ih =>
    obtain ⟨e, he⟩ : ∃ e, p.allElements[x]? = some e := by
      rw [recurseRecip, bind_eq_done] at h
      obtain ⟨_, -, h⟩ := h
      rw [bind_eq_done] at h
      obtain ⟨e, he, -⟩ := h
      exact ⟨e, deref_eq_done.1 he⟩
    rw [recurseRecip_succ hspec hgw he] at h
    cases hentered : p.entered gw x stack with
    | none =>
      simp only [hentered, Parsed.done.injEq] at h
      subst h
      have hid : idAt p.allElements x = some e.id := by rw [idAt, he, Option.map_some]
      obtain ⟨hacc, hfinds⟩ := finds_of_entered_eq_none hentered hid
      refine ⟨hacc, fun id => ?_⟩
      rw [hfinds, mem_insert_iff, or_comm]
    | some stack' =>
      simp only [hentered] at h
      by_cases hnil : predecessors p.elements e.id = []
      · rw [if_pos hnil] at h
        obtain rfl : result.insert nullId = r := by simpa using h
        have hno : ∀ d, ¬p.BackStep gw (x, stack) d := by
          intro d hd
          exact (no_flow_iff he).2 hnil _ ((backStep_iff hentered).1 hd).1
        obtain ⟨hacc, hfinds⟩ := finds_of_no_step hno
        refine ⟨hacc, fun id => ?_⟩
        rw [hfinds, endsAt_iff hentered he, mem_insert_iff, and_iff_right hnil, or_comm]
      · rw [if_neg hnil] at h
        exact finds_of_foldlM hentered he hnil (fun y b b' hround => ih hround) h

/-- A search within the process never panics. -/
theorem recurseRecip_done_or_unfinished (fuel : Nat) (hx : x < p.allElements.length)
    (stack : Nat) (result : List String) :
    (∃ r, recurseRecip p.allElements (getElementIdReferences p) (indexPointers p) gw
        fuel x stack result = .done r) ∨
      recurseRecip p.allElements (getElementIdReferences p) (indexPointers p) gw
        fuel x stack result = .unfinished := by
  induction fuel generalizing x stack result with
  | zero => exact .inr rfl
  | succ fuel ih =>
    have he : p.allElements[x]? = some p.allElements[x] := List.getElem?_eq_getElem hx
    rw [recurseRecip_succ hspec hgw he]
    cases p.entered gw x stack with
    | none => exact .inl ⟨_, rfl⟩
    | some stack' =>
      dsimp only
      split
      · exact .inl ⟨_, rfl⟩
      · refine foldlM_done_or_unfinished (fun next hnext b => ?_) result
        obtain ⟨y, hy⟩ := exists_pointer_of_mem_predecessors hnext
        rw [hy, deref_some, done_bind]
        obtain ⟨e, he, -⟩ := getElem?_of_lookup_indexPointers hy
        exact ih (List.getElem?_eq_some_iff.1 he).1 stack' b

omit hspec hgw in
theorem recurseRecip_mono {index : GoMap Nat} {m n stack : Nat} (hle : m ≤ n)
    (h : recurseRecip els refs index gw m x stack result = .done r) :
    recurseRecip els refs index gw n x stack result = .done r := by
  induction m generalizing n x stack result r with
  | zero => simp [recurseRecip] at h
  | succ m ih =>
    obtain ⟨n, rfl⟩ : ∃ n', n = n' + 1 := ⟨n - 1, by omega⟩
    rw [recurseRecip, bind_eq_done] at h ⊢
    obtain ⟨entered, hentered, h⟩ := h
    refine ⟨entered, hentered, ?_⟩
    rw [bind_eq_done] at h ⊢
    obtain ⟨e, he, h⟩ := h
    refine ⟨e, he, ?_⟩
    cases entered with
    | none => exact h
    | some stack' =>
      dsimp only at h ⊢
      split at h
      · exact h
      · refine foldlM_mono (fun next _ b b' hround => ?_) h
        rw [bind_eq_done] at hround ⊢
        obtain ⟨y, hy, hround⟩ := hround
        exact ⟨y, hy, ih (by omega) hround⟩

/-- A search without an infinite walk ends. -/
theorem exists_recurseRecip (hacc : Acc (flip (p.BackStep gw)) c)
    (hc : c.1 < p.allElements.length) :
    ∃ fuel, ∀ result, ∃ r, recurseRecip p.allElements (getElementIdReferences p)
      (indexPointers p) gw fuel c.1 c.2 result = .done r := by
  induction hacc with
  | intro c _ ih =>
    have he : p.allElements[c.1]? = some p.allElements[c.1] := List.getElem?_eq_getElem hc
    cases hentered : p.entered gw c.1 c.2 with
    | none =>
      refine ⟨1, fun result => ⟨result.insert p.allElements[c.1].id, ?_⟩⟩
      rw [recurseRecip_succ hspec hgw he, hentered]
    | some stack =>
      -- the fuel of the calls that follow
      obtain ⟨fuel, hfuel⟩ := exists_fuel
        (P := fun fuel next => ∀ y, p.pointer next = some y → ∀ result, ∃ r,
          recurseRecip p.allElements (getElementIdReferences p) (indexPointers p) gw
            fuel y stack result = .done r)
        (fun m n next hle hm y hy result => by
          obtain ⟨r, hr⟩ := hm y hy result
          exact ⟨r, recurseRecip_mono hle hr⟩)
        (fun next hnext => by
          obtain ⟨y, hy⟩ := exists_pointer_of_mem_predecessors hnext
          have hflow : p.Flow y c.1 := (flow_iff he).2 ⟨next, hnext, hy⟩
          obtain ⟨fuel, hfuel⟩ := ih (y, stack) ⟨hentered, hflow⟩ hflow.lt
          refine ⟨fuel, fun z hz => ?_⟩
          obtain rfl : y = z := Option.mem_unique hy hz
          exact hfuel)
      refine ⟨fuel + 1, fun result => ?_⟩
      rw [recurseRecip_succ hspec hgw he, hentered]
      dsimp only
      split
      · exact ⟨_, rfl⟩
      · refine exists_foldlM (fun next hnext b => ?_) result
        obtain ⟨y, hy⟩ := exists_pointer_of_mem_predecessors hnext
        rw [hy, deref_some, done_bind]
        exact hfuel next hnext y hy b

end Search

/-! ### The direction check -/

/-- The element with a direction of its gateway. -/
def Element.directed (e : Element) (direction : GatewayDirection) : Element :=
  { e with gateway := e.gateway.map fun g => { g with direction := direction } }

/-- What the direction check does to an element. -/
theorem tagDirection_eq_done {el el' : Element} : tagDirection refs el = .done el' ↔
      (el.type ≠ .gateway ∧ el' = el) ∨ ∃ g direction, el.type = .gateway ∧ el.gateway = some g ∧
        directionOf ((refs.lookup el.id).getD []).length el.targetIds.length = some direction ∧
        el' = el.directed direction := by
  have hout : (el.outbound.map fun outbound => outbound.target.length).getD 0 =
      el.targetIds.length := by
    unfold Element.targetIds
    cases el.outbound <;> simp
  unfold tagDirection
  dsimp only
  rw [hout]
  by_cases htype : el.type = .gateway
  · rw [if_pos htype]
    cases hdir : directionOf ((refs.lookup el.id).getD []).length el.targetIds.length with
    | none => simp [htype]
    | some direction =>
      cases hg : el.gateway with
      | none => simp [htype]
      | some g => simp [htype, hg, Element.directed, eq_comm]
  · simp [htype, eq_comm]

variable {p' : Process} {p : Process}

/-- The direction check keeps everything but the directions. -/
theorem tagDirections_eq_done (h : tagDirections p = .done p') :
    p' = { p with elements := p'.elements } ∧ ∀ i : Nat,
      (∃ el el', p.elements[i]? = some el ∧ p'.elements[i]? = some el' ∧
        tagDirection (getElementIdReferences p) el = .done el') ∨
      p.elements[i]? = none ∧ p'.elements[i]? = none := by
  rw [tagDirections, bind_eq_done] at h
  obtain ⟨elements, hmap, h⟩ := h
  obtain rfl : { p with elements := elements } = p' := by simpa using h
  exact ⟨rfl, Parsed.getElem?_mapM hmap⟩

/-- The element with the direction that the flows into and out of it give, if it is a gateway. -/
def Process.directedElement (p : Process) (el : Element) : Element :=
  if el.type = .gateway then
    ((directionOf (predecessors p.elements el.id).length el.targetIds.length).map
      el.directed).getD el
  else el

/-- The process with the direction of each gateway that the flows into and out of it give. -/
def Process.directed (p : Process) : Process :=
  { p with elements := p.elements.map p.directedElement }

/-- A process that passes the direction check has those directions. -/
theorem eq_directed_of_tagDirections (h : tagDirections p = .done p') : p' = p.directed := by
  obtain ⟨hp', hall⟩ := tagDirections_eq_done h
  rw [hp', Process.directed]
  congr 1
  refine ext_getElem? fun i => ?_
  rw [List.getElem?_map]
  rcases hall i with ⟨el, el', hel, hel', htag⟩ | ⟨hel, hel'⟩
  · rw [hel, hel', Option.map_some]
    congr 1
    rcases tagDirection_eq_done.1 htag with ⟨hne, rfl⟩ | ⟨g, direction, htype, -, hdir, rfl⟩
    · rw [Process.directedElement, if_neg hne]
    · rw [getD_getElementIdReferences] at hdir
      rw [Process.directedElement, if_pos htype, hdir]
      rfl
  · rw [hel, hel', Option.map_none]

/-- Gateways that have passed the direction check have a specification. -/
theorem gatewaysSpecified_of_tagDirections (h : tagDirections p = .done p')
    (hspec : p.GatewaysSpecified) : p'.GatewaysSpecified := by
  obtain ⟨hp', hall⟩ := tagDirections_eq_done h
  intro e he htype
  rw [hp', Process.allElements, mem_append] at he
  rcases he with he | he
  · obtain ⟨i, hi⟩ := mem_iff_getElem?.1 he
    rcases hall i with ⟨el, el', -, hel', htag⟩ | ⟨-, hnone⟩
    · obtain rfl : e = el' := Option.mem_unique hi hel'
      rcases tagDirection_eq_done.1 htag with ⟨hne, rfl⟩ | ⟨g, direction, -, hg, -, rfl⟩
      · exact absurd htype hne
      · exact ⟨_, by rw [Element.directed, hg]; rfl⟩
    · cases hi.symm.trans hnone
  · exact hspec e (mem_append_right _ he) htype

theorem Process.IsJoin.kindAt_allElements {c : Nat} (hc : p.IsJoin c) :
    c < p.elements.length ∧ ∃ type, kindAt p.allElements c = some (type, .convergent) := by
  obtain ⟨type, hkind⟩ := hc
  obtain ⟨e, he, hekind⟩ := Option.bind_eq_some_iff.1 hkind
  have hlt := (List.getElem?_eq_some_iff.1 he).1
  refine ⟨hlt, type, ?_⟩
  rw [kindAt, Process.allElements, List.getElem?_append_left hlt, he]
  exact hekind

/-! ### When the search ends -/

/-- **The search from a join ends unless some walk of it comes back** to an element with a count of
joins that is no smaller than before. -/
theorem recurseRecip_terminates_iff (p p' : Process) (hspec : p.GatewaysSpecified)
    (hdir : tagDirections p = .done p') (c : Nat) (hc : p'.IsJoin c) :
    (∃ fuel r, recurseRecip p'.allElements (getElementIdReferences p')
      (indexPointers p') c fuel c 0 [] = .done r) ↔
      ¬Graph.Pumps (p'.BackStep c) (c, 0) := by
  have hspec' := gatewaysSpecified_of_tagDirections hdir hspec
  obtain ⟨hlt, type, hkind⟩ := hc.kindAt_allElements
  rw [← Graph.acc_iff_not_pumps (Process.liftable_backStep c) (Process.finite_backStep c (c, 0))]
  constructor
  · rintro ⟨fuel, r, hdone⟩
    exact (recurseRecip_spec hspec' hkind hdone).1
  · intro hacc
    have hlt' : c < p'.allElements.length := by
      rw [Process.allElements, List.length_append]
      omega
    obtain ⟨fuel, hfuel⟩ := exists_recurseRecip hspec' hkind hacc hlt'
    exact ⟨fuel, hfuel []⟩

theorem gatewaysSpecified_of_all
    (h : p.allElements.all (fun e => e.type ≠ .gateway || e.gateway.isSome) = true) :
    p.GatewaysSpecified := by
  intro e he htype
  have hsome := all_eq_true.1 h e he
  exact Option.isSome_iff_exists.1 (by simpa [htype] using hsome)

/-- Whether the gateway of an element is as the parser builds it. -/
def Element.asParsed (e : Element) : Bool :=
  match e.gateway with
  | some g => g.reciprocalId = ""
  | none => e.type ≠ .gateway

theorem asParsed_of_all (h : p.allElements.all Element.asParsed = true) : p.AsParsed := by
  rw [all_eq_true] at h
  refine ⟨fun e he htype => ?_, fun e he g hg => ?_⟩
  · have hparsed := h e he
    cases hg : e.gateway with
    | none => simp [Element.asParsed, hg, htype] at hparsed
    | some g => exact ⟨g, rfl⟩
  · simpa [Element.asParsed, hg] using h e he

/-- Flows without conditions, none of them the default. -/
def flowsTo (targets : List String) : Option Targets :=
  some { target := targets.map fun t => { target := t }, defaultTarget := -1 }

/-- A start event with a flow. -/
def startTo (id target : String) : Element :=
  { id := id, type := .startEvent, outbound := flowsTo [target] }

/-- A service task with a flow. -/
def taskTo (id target : String) : Element :=
  { id := id, type := .serviceTask, execute := id, outbound := flowsTo [target] }

/-- A service task that writes a variable. -/
def writerTo (id target key : String) : Element :=
  { taskTo id target with outputTransform := AList.singleton key ("=" ++ key) }

/-- A gateway with flows, not yet tagged. -/
def gatewayTo (type : GatewayType) (id : String) (targets : List String) : Element :=
  { id := id, type := .gateway, gateway := some { type := type }, outbound := flowsTo targets }

/-- An end event. -/
def endAt (id : String) : Element := { id := id, type := .endEvent }

/-- A choice between two tasks, one of which writes a variable. -/
def diamond : Process :=
  { id := "choice"
    elements := [startTo "start" "fork", gatewayTo .exclusive "fork" ["a", "b"],
      writerTo "a" "join" "x", taskTo "b" "join", gatewayTo .exclusive "join" ["end"],
      endAt "end"] }

/-- The choice with its directions. -/
def diamondDirected : Process :=
  { diamond with
    elements := [startTo "start" "fork", gatewayTo .exclusive "fork" ["a", "b"],
      writerTo "a" "join" "x", taskTo "b" "join",
      (gatewayTo .exclusive "join" ["end"]).directed .convergent, endAt "end"] }

theorem recurseRecip_terminates_iff_diamond :
    diamondDirected.IsJoin 4 ∧ ((∃ fuel r, recurseRecip diamondDirected.allElements
      (getElementIdReferences diamondDirected) (indexPointers diamondDirected) 4 fuel 4
      0 [] = .done r) ↔ ¬Graph.Pumps (diamondDirected.BackStep 4) (4, 0)) := by
  have hjoin : diamondDirected.IsJoin 4 := ⟨.exclusive, rfl⟩
  have hspec : diamond.GatewaysSpecified := (asParsed_of_all rfl).specified
  exact ⟨hjoin, recurseRecip_terminates_iff _ _ hspec rfl 4 hjoin⟩

/-- A task that is tried again until an inclusive gateway lets it pass, closed by an exclusive
gateway. -/
def retryLoop : Process :=
  { id := "retry"
    elements := [startTo "start" "again", gatewayTo .exclusive "again" ["work"],
      taskTo "work" "check", gatewayTo .inclusive "check" ["end", "again"], endAt "end"] }

/-- The loop with its directions. -/
def retryLoopDirected : Process :=
  { retryLoop with
    elements := [startTo "start" "again",
      (gatewayTo .exclusive "again" ["work"]).directed .convergent, taskTo "work" "check",
      gatewayTo .inclusive "check" ["end", "again"], endAt "end"] }

theorem tagDirections_retryLoop : tagDirections retryLoop = .done retryLoopDirected := rfl

/-- The search from the join of the loop goes round and round: the split is of another type. -/
theorem recurseRecip_retryLoop_unfinished :
    tagDirections retryLoop = .done retryLoopDirected ∧ retryLoopDirected.IsJoin 1 ∧
      ∀ fuel, recurseRecip retryLoopDirected.allElements (getElementIdReferences retryLoopDirected)
        (indexPointers retryLoopDirected) 1 fuel 1 0 [] = .unfinished := by
  have hspec : retryLoop.GatewaysSpecified := (asParsed_of_all rfl).specified
  have hspec' := gatewaysSpecified_of_tagDirections tagDirections_retryLoop hspec
  have hkind : kindAt retryLoopDirected.allElements 1 = some (.exclusive, .convergent) := rfl
  refine ⟨tagDirections_retryLoop, ⟨.exclusive, rfl⟩, fun fuel => ?_⟩
  -- from the join to the split, the task and back
  have hflow : ∀ {x : Nat} {e : Element} {next : String} {y : Nat},
      retryLoopDirected.allElements[x]? = some e →
      next ∈ predecessors retryLoopDirected.elements e.id →
      retryLoopDirected.pointer next = some y → retryLoopDirected.Flow y x :=
    fun he hnext hy => (Process.flow_iff he).2 ⟨_, hnext, hy⟩
  have hcheck : retryLoopDirected.BackStep 1 (1, 0) (3, 0) :=
    ⟨rfl, hflow rfl (by decide : "check" ∈ _) rfl⟩
  have hwork : retryLoopDirected.BackStep 1 (3, 0) (2, 0) :=
    ⟨rfl, hflow rfl (by decide : "work" ∈ _) rfl⟩
  have hagain : retryLoopDirected.BackStep 1 (2, 0) (1, 0) :=
    ⟨rfl, hflow rfl (by decide : "again" ∈ _) rfl⟩
  have hloop : TransGen (retryLoopDirected.BackStep 1) (1, 0) (1, 0) :=
    ((TransGen.single hcheck).tail hwork).tail hagain
  rcases recurseRecip_done_or_unfinished hspec' hkind fuel (by decide : 1 < _) 0 [] with
    ⟨r, hr⟩ | hnot
  · exact absurd (Graph.acc_flip_transGen.2 (recurseRecip_spec hspec' hkind hr).1)
      ((Process.liftable_backStep 1).not_acc_of_transGen hloop le_rfl)
  · exact hnot

end SharWorkflow
