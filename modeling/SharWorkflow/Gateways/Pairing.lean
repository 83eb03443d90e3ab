import SharWorkflow.Gateways.Search
import SharWorkflow.Parser.Validation

/-!
# The pairing of splits and joins

The second loop of the tagger searches the split of each join in turn and writes the id of each into
the other (`tagReciprocal`). The search looks at nothing that this changes (`SameGraph`), so that
all searches take place in the graph of the process as the direction check has left it. A split
**opens** a join if it is all that the search from the join finds (`Process.OpenedBy`).

* `tagJoins_spec`: a join ends up with the split that opens it, and a split with a join that it
  opens.
* `paired_iff`: in a workflow that is accepted the fields form a pairing exactly when no split opens
  two joins.
-/

namespace SharWorkflow

open List Parsed Option Process Element

/-! ### What the search does not look at -/

/-- An element without the fields that the search for splits sets. -/
def Element.shape (e : Element) : Element :=
  { e with
    gateway := e.gateway.map fun g => { g with reciprocalId := "", fixedExpectations := [] } }

/-- The elements differ at most in the fields that the search for splits sets. -/
def SameGraph (els els' : List Element) : Prop := els.map Element.shape = els'.map Element.shape

theorem SameGraph.refl (els : List Element) : SameGraph els els := rfl

theorem SameGraph.trans {els els' els'' : List Element} (h : SameGraph els els')
    (h' : SameGraph els' els'') : SameGraph els els'' := Eq.trans h h'

theorem idAt_shape (els : List Element) (i : Nat) : idAt (els.map shape) i = idAt els i := by
  simp [idAt, Function.comp_def, shape]

theorem kindAt_shape (els : List Element) (i : Nat) : kindAt (els.map shape) i = kindAt els i := by
  cases h : els[i]? <;> simp [kindAt, h, Element.kind, shape, Function.comp_def]

theorem enterElement_shape (els : List Element) (gw x stack : Nat) :
    enterElement (els.map shape) gw x stack = enterElement els gw x stack := by
  cases hx : els[x]? with
  | none => simp [enterElement, hx]
  | some e =>
    have hgw : (els.map shape)[gw]?.bind (·.gateway) = (els[gw]?.bind (·.gateway)).map
        fun g => { g with reciprocalId := "", fixedExpectations := [] } := by
      rw [List.getElem?_map]
      cases els[gw]? <;> rfl
    rw [enterElement, enterElement, hgw, List.getElem?_map, hx]
    cases els[gw]?.bind (·.gateway) <;> cases hg : e.gateway <;> simp [shape, hg]

/-- The search looks at the shapes of the elements only. -/
theorem recurseRecip_shape (els : List Element) (refs : GoMap (List String)) (index : GoMap Nat)
    (gw fuel x stack : Nat) (result : List String) :
    recurseRecip (els.map shape) refs index gw fuel x stack result =
      recurseRecip els refs index gw fuel x stack result := by
  induction fuel generalizing x stack result with
  | zero => rfl
  | succ fuel ih =>
    simp only [recurseRecip, enterElement_shape, ih]
    cases hx : els[x]? <;> simp [hx, shape]

variable {els els' : List Element} {e : Element} {i : Nat}

section

variable (h : SameGraph els els')
include h

theorem SameGraph.length_eq : els.length = els'.length := by
  have hlength := congrArg List.length h
  rwa [length_map, length_map] at hlength

theorem SameGraph.exists_shape_eq (he : els[i]? = some e) :
    ∃ e', els'[i]? = some e' ∧ e'.shape = e.shape := by
  have hi : els'[i]?.map Element.shape = some e.shape := by
    rw [← List.getElem?_map, ← h, List.getElem?_map, he, map_some]
  exact map_eq_some_iff.1 hi

theorem SameGraph.idAt_eq (i : Nat) : idAt els i = idAt els' i := by
  rw [← idAt_shape els, h, idAt_shape]

theorem SameGraph.kindAt_eq (i : Nat) : kindAt els i = kindAt els' i := by
  rw [← kindAt_shape els, h, kindAt_shape]

/-- The search is the same. -/
theorem SameGraph.recurseRecip_eq (refs : GoMap (List String)) (index : GoMap Nat)
    (gw fuel x stack : Nat) (result : List String) :
    recurseRecip els refs index gw fuel x stack result =
      recurseRecip els' refs index gw fuel x stack result := by
  rw [← recurseRecip_shape els, h, recurseRecip_shape]

end

/-- The gateway that the one behind a pointer is paired with. -/
def recipAt (els : List Element) (i : Nat) : Option String :=
  els[i]?.bind fun e => e.gateway.map (·.reciprocalId)

/-- What it means that the gateway behind a pointer has been changed. -/
theorem setGateway_eq_done {f : GatewaySpec → GatewaySpec} (h : setGateway els i f = .done els')
    (hf : ∀ g, (f g).type = g.type ∧ (f g).direction = g.direction) :
    SameGraph els' els ∧ ∃ e g, els[i]? = some e ∧ e.gateway = some g ∧
      ∀ k, recipAt els' k = if k = i then some (f g).reciprocalId else recipAt els k := by
  rw [setGateway, bind_eq_done] at h
  obtain ⟨e, he, h⟩ := h
  rw [bind_eq_done] at h
  obtain ⟨g, hg, h⟩ := h
  rw [deref_eq_done] at he hg
  obtain rfl : els.set i { e with gateway := some (f g) } = els' := by simpa using h
  have hlt : i < els.length := (List.getElem?_eq_some_iff.1 he).1
  constructor
  · rw [SameGraph]
    refine ext_getElem? fun k => ?_
    rw [List.getElem?_map, List.getElem?_map, List.getElem?_set]
    by_cases hk : i = k
    · subst hk
      have hshape : Element.shape { e with gateway := some (f g) } = e.shape := by
        simp [Element.shape, hg, (hf g).1, (hf g).2]
      rw [if_pos rfl, if_pos hlt, he, map_some, map_some, hshape]
    · rw [if_neg hk]
  · refine ⟨e, g, he, hg, fun k => ?_⟩
    rw [recipAt, List.getElem?_set]
    by_cases hk : i = k
    · subst hk
      simp [hlt]
    · simp [hk, Ne.symm hk, recipAt]

/-- A split that has been searched for has the specification of a gateway. -/
theorem exists_setGateway {els : List Element} {g : GatewaySpec}
    (he : els[i]? = some e) (hg : e.gateway = some g) (f : GatewaySpec → GatewaySpec) :
    ∃ els', setGateway els i f = .done els' := by
  refine ⟨els.set i { e with gateway := some (f g) }, ?_⟩
  rw [setGateway, he, deref_some, done_bind, hg, deref_some, done_bind,
    pure_eq]

/-! ### The split that opens a join -/

variable {gw fuel : Nat} {r : List String}

theorem nodup_recurseRecip {els : List Element} {refs : GoMap (List String)} {index : GoMap Nat}
    {x stack : Nat} {result : List String} (hnodup : result.Nodup)
    (h : recurseRecip els refs index gw fuel x stack result = .done r) : r.Nodup := by
  induction fuel generalizing x stack result r with
  | zero => simp [recurseRecip] at h
  | succ fuel ih =>
    rw [recurseRecip, bind_eq_done] at h
    obtain ⟨entered, -, h⟩ := h
    rw [bind_eq_done] at h
    obtain ⟨e, -, h⟩ := h
    cases entered with
    | none =>
      obtain rfl : result.insert e.id = r := by simpa using h
      exact hnodup.insert
    | some stack' =>
      dsimp only at h
      split at h
      · obtain rfl : result.insert nullId = r := by simpa using h
        exact hnodup.insert
      · refine foldlM_inv List.Nodup (fun next _ b b' hb hround => ?_) hnodup h
        rw [bind_eq_done] at hround
        obtain ⟨y, -, hround⟩ := hround
        exact ih hb hround

variable {a : Nat × Nat}

namespace Process

variable {p : Process} {c d : Nat}

/-- The split behind `d` **opens** the join behind `c`: it is all that the search from `c` finds. -/
def OpenedBy (p : Process) (c d : Nat) : Prop :=
  ∃ id, id ≠ nullId ∧ (∀ id', p.Finds c (c, 0) id' ↔ id' = id) ∧ p.pointer id = some d

theorem OpenedBy.unique {d' : Nat} (h : p.OpenedBy c d) (h' : p.OpenedBy c d') : d = d' := by
  obtain ⟨id, -, hall, hd⟩ := h
  obtain ⟨id', -, hall', hd'⟩ := h'
  obtain rfl : id = id' := (hall' id).1 ((hall id).2 rfl)
  exact Option.mem_unique hd hd'

/-- An element that a search has come to is the one that is indexed under its id. -/
theorem pointer_of_reflTransGen {b : Nat × Nat}
    (hreach : Relation.ReflTransGen (p.BackStep gw) a b) :
    b = a ∨ ∃ id, p.pointer id = some b.1 ∧ idAt p.allElements b.1 = some id := by
  rcases Relation.ReflTransGen.cases_tail hreach with heq | ⟨c, -, -, hflow⟩
  · exact .inl heq
  · obtain ⟨el, -, -, -, -, hy⟩ := hflow
    obtain ⟨e, he, hid⟩ := getElem?_of_lookup_indexPointers hy
    exact .inr ⟨el.id, hy, by rw [idAt, he, map_some, hid]⟩

variable {kind : GatewayType × GatewayDirection}

theorem entered_self (hc : SharWorkflow.kindAt p.allElements c = some kind) (s : Nat) :
    p.entered c c s = some s := by
  rw [entered, hc]
  simp

/-- What the search from a join finds, other than that there is nothing, it has stopped at. -/
theorem exists_stop_of_finds {id : String} (hc : SharWorkflow.kindAt p.allElements c = some kind)
    (h : p.Finds c (c, 0) id) (hne : id ≠ nullId) :
    ∃ x s, p.entered c x s = none ∧ p.pointer id = some x ∧ idAt p.allElements x = some id := by
  obtain ⟨⟨x, s⟩, hreach, hend⟩ := h
  cases hentered : p.entered c x s with
  | some s' =>
    simp only [EndsAt, hentered] at hend
    exact absurd hend.2 hne
  | none =>
    simp only [EndsAt, hentered] at hend
    rcases pointer_of_reflTransGen hreach with heq | ⟨id', hpointer, hid'⟩
    · obtain ⟨rfl, rfl⟩ := Prod.mk.inj heq
      cases (entered_self hc 0).symm.trans hentered
    · obtain rfl : id = id' := Option.mem_unique hend hid'
      exact ⟨x, s, hentered, hpointer, hid'⟩

/-- The split that opens a join is a split of the same type. -/
theorem OpenedBy.kindAt (h : p.OpenedBy c d) (hc : kindAt p.allElements c = some kind) :
    SharWorkflow.kindAt p.allElements d = some (kind.1, .divergent) ∧
      ∃ id, idAt p.allElements d = some id ∧ p.pointer id = some d := by
  obtain ⟨id, hne, hall, hd⟩ := h
  obtain ⟨x, s, hentered, hpointer, hid⟩ := exists_stop_of_finds hc ((hall id).2 rfl) hne
  obtain rfl : x = d := Option.mem_unique hpointer hd
  refine ⟨?_, id, hid, hd⟩
  -- the search stops at a split of its own type only
  obtain ⟨type, direction⟩ := kind
  rw [entered, hc] at hentered
  split at hentered
  · rename_i type' _ type'' direction' hcase hx
    obtain ⟨rfl, -⟩ : type = type' ∧ _ := by simpa using hcase
    split at hentered
    · rename_i hsame
      split at hentered
      · simp at hentered
      · rw [hx, hsame.2]
    · simp at hentered
  · simp at hentered

/-- A walk that ends finds something. -/
theorem exists_finds (hacc : Acc (flip (p.BackStep gw)) a)
    (ha : a.1 < p.allElements.length) : ∃ id, p.Finds gw a id := by
  induction hacc with
  | intro a _ ih =>
    cases hentered : p.entered gw a.1 a.2 with
    | none =>
      refine ⟨p.allElements[a.1].id, finds_iff.2 (.inl ?_)⟩
      simp [EndsAt, hentered, idAt, List.getElem?_eq_getElem ha]
    | some s =>
      by_cases hno : ∀ y, ¬p.Flow y a.1
      · refine ⟨nullId, finds_iff.2 (.inl ?_)⟩
        simp only [EndsAt, hentered]
        exact ⟨hno, trivial⟩
      · simp only [not_forall, not_not] at hno
        obtain ⟨y, hflow⟩ := hno
        have hstep : p.BackStep gw a (y, s) := ⟨hentered, hflow⟩
        obtain ⟨id, hid⟩ := ih (y, s) hstep hflow.lt
        exact ⟨id, finds_iff.2 (.inr ⟨_, hstep, hid⟩)⟩

/-- The result of the search from a join tells whether a split opens it. -/
theorem openedBy_or_solitary (hspec : p.GatewaysSpecified)
    (hc : SharWorkflow.kindAt p.allElements c = some kind)
    (hr : recurseRecip p.allElements (getElementIdReferences p) (indexPointers p) c fuel
      c 0 [] = .done r) :
    (∃ id d, ¬(nullId ∈ r ∨ r.length > 1) ∧ r = [id] ∧ p.pointer id = some d ∧ p.OpenedBy c d) ∨
      (nullId ∈ r ∨ r.length > 1) ∧ ∀ d, ¬p.OpenedBy c d := by
  obtain ⟨hacc, hfinds⟩ := recurseRecip_spec hspec hc hr
  simp only [not_mem_nil, false_or] at hfinds
  have hnodup : r.Nodup := nodup_recurseRecip nodup_nil hr
  have hlt : c < p.allElements.length := by
    obtain ⟨e, he, -⟩ := bind_eq_some_iff.1 hc
    exact (List.getElem?_eq_some_iff.1 he).1
  by_cases hsolitary : nullId ∈ r ∨ r.length > 1
  · refine .inr ⟨hsolitary, ?_⟩
    rintro d ⟨id, hne, hall, -⟩
    have honly : ∀ id' ∈ r, id' = id := fun id' hmem => (hall id').1 ((hfinds id').1 hmem)
    rcases hsolitary with hnull | hlength
    · exact hne (honly _ hnull).symm
    · obtain _ | ⟨a, _ | ⟨b, rest⟩⟩ := r
      · simp at hlength
      · simp at hlength
      · have hab : a = b := (honly a (by simp)).trans (honly b (by simp)).symm
        simp [hab] at hnodup
  · refine .inl ?_
    obtain ⟨id, hid⟩ := exists_finds hacc hlt
    obtain ⟨hnull, hlength⟩ := not_or.1 hsolitary
    have hmem : id ∈ r := (hfinds id).2 hid
    obtain rfl : r = [id] := by
      obtain _ | ⟨a, _ | ⟨b, rest⟩⟩ := r
      · cases hmem
      · rw [mem_singleton.1 hmem]
      · simp at hlength
    have hne : id ≠ nullId := fun heq => hnull (heq ▸ hmem)
    obtain ⟨d, -, -, hd, -⟩ := exists_stop_of_finds hc hid hne
    refine ⟨id, d, hsolitary, rfl, hd, id, hne, fun id' => ?_, hd⟩
    rw [← hfinds id', mem_singleton]

end Process

/-! ### One join -/

section Reciprocal

variable {p : Process} {c : Nat} {kind : GatewayType × GatewayDirection} {els els' : List Element}
  (hspec : p.GatewaysSpecified) (hsame : SameGraph els p.allElements)
  (hc : kindAt p.allElements c = some kind)

include hspec hsame hc

/-- **What the search for the split of a join does**: it pairs the two, or nothing. -/
theorem tagReciprocal_spec
    (h : tagReciprocal (getElementIdReferences p) (indexPointers p) fuel c els =
      .done els') : SameGraph els' p.allElements ∧ ((∃ d, p.OpenedBy c d ∧ ∀ k, recipAt els' k =
          if k = d then idAt p.allElements c
          else if k = c then idAt p.allElements d else recipAt els k) ∨
        (∀ d, ¬p.OpenedBy c d) ∧ ∀ k, recipAt els' k = recipAt els k) := by
  rw [tagReciprocal, bind_eq_done] at h
  obtain ⟨r, hr, h⟩ := h
  rw [hsame.recurseRecip_eq] at hr
  rw [bind_eq_done] at h
  obtain ⟨e, he, h⟩ := h
  rw [deref_eq_done] at he
  have hid : idAt p.allElements c = some e.id := by rw [← hsame.idAt_eq, idAt, he, map_some]
  rcases openedBy_or_solitary hspec hc hr with
    ⟨id, d, hone, rfl, hd, hopened⟩ | ⟨hsolitary, hnot⟩
  · rw [if_neg hone, bind_eq_done] at h
    obtain ⟨only, honly, h⟩ := h
    have honly' : p.pointer id = some only := deref_eq_done.1 honly
    obtain rfl : d = only := Option.mem_unique hd honly'
    rw [bind_eq_done] at h
    obtain ⟨split, hsplit, h⟩ := h
    rw [deref_eq_done] at hsplit
    have hsplitId : idAt p.allElements d = some split.id := by
      rw [← hsame.idAt_eq, idAt, hsplit, map_some]
    rw [bind_eq_done] at h
    obtain ⟨els₁, hfirst, hsecond⟩ := h
    obtain ⟨hsame₁, _, _, -, -, hrecip₁⟩ := setGateway_eq_done hfirst fun g => ⟨rfl, rfl⟩
    obtain ⟨hsame₂, _, _, -, -, hrecip₂⟩ := setGateway_eq_done hsecond fun g => ⟨rfl, rfl⟩
    refine ⟨(hsame₂.trans hsame₁).trans hsame, .inl ⟨d, hopened, fun k => ?_⟩⟩
    rw [hrecip₂, hrecip₁, hid, hsplitId]
  · rw [if_pos hsolitary] at h
    split at h
    · obtain ⟨hsame₁, e', g, he', hg, hrecip₁⟩ := setGateway_eq_done h fun g => ⟨rfl, rfl⟩
      refine ⟨hsame₁.trans hsame, .inr ⟨hnot, fun k => ?_⟩⟩
      rw [hrecip₁]
      split
      · rename_i hk
        rw [hk, recipAt, he', bind_some, hg, map_some]
      · rfl
    · obtain rfl : els = els' := by simpa using h
      exact ⟨hsame, .inr ⟨hnot, fun _ => rfl⟩⟩

/-- The search for the split of a join succeeds when it ends. -/
theorem exists_tagReciprocal
    (hr : recurseRecip p.allElements (getElementIdReferences p) (indexPointers p) c fuel
      c 0 [] = .done r) :
    ∃ els', tagReciprocal (getElementIdReferences p) (indexPointers p) fuel c els =
      .done els' := by
  -- a gateway keeps its specification
  have hgateway : ∀ {els₁ : List Element} {k : Nat} {kind' : GatewayType × GatewayDirection},
      SameGraph els₁ p.allElements → kindAt p.allElements k = some kind' →
      ∃ e g, els₁[k]? = some e ∧ e.gateway = some g := by
    intro els₁ k kind' hsame₁ hk
    rw [← hsame₁.kindAt_eq, kindAt, bind_eq_some_iff] at hk
    obtain ⟨e, he, hkind⟩ := hk
    unfold Element.kind at hkind
    split at hkind
    · obtain ⟨g, hg, -⟩ := map_eq_some_iff.1 hkind
      exact ⟨e, g, he, hg⟩
    · cases hkind
  obtain ⟨e, g, he, hg⟩ := hgateway hsame hc
  rw [tagReciprocal, hsame.recurseRecip_eq, hr, done_bind, he, deref_some,
    done_bind]
  rcases openedBy_or_solitary hspec hc hr with
    ⟨id, d, hone, rfl, hd, hopened⟩ | ⟨hsolitary, -⟩
  · have hpointer : (indexPointers p).lookup id = some d := hd
    obtain ⟨hdkind, -⟩ := hopened.kindAt hc
    obtain ⟨split, g', hsplit, hg'⟩ := hgateway hsame hdkind
    rw [if_neg hone, List.head?_cons, bind_some, hpointer, deref_some,
      done_bind, hsplit, deref_some, done_bind]
    obtain ⟨els₁, hfirst⟩ := exists_setGateway he hg fun g => { g with reciprocalId := split.id }
    obtain ⟨hsame₁, -⟩ := setGateway_eq_done hfirst fun g => ⟨rfl, rfl⟩
    obtain ⟨split₁, g₁, hsplit₁, hg₁⟩ := hgateway (hsame₁.trans hsame) hdkind
    rw [hfirst, done_bind]
    exact exists_setGateway hsplit₁ hg₁ _
  · rw [if_pos hsolitary]
    split
    · exact exists_setGateway he hg _
    · exact ⟨els, rfl⟩

end Reciprocal

/-! ### All joins -/

namespace Process

variable {p : Process}

theorem isJoin_iff {c : Nat} (hc : c < p.elements.length) :
    p.IsJoin c ↔ ∃ type, kindAt p.allElements c = some (type, .convergent) := by
  rw [IsJoin, kindAt, kindAt, allElements, List.getElem?_append_left hc]

/-- A split that opens a join is no join. -/
theorem OpenedBy.not_isJoin {c d : Nat} (h : p.OpenedBy c d) (hc : p.IsJoin c) : ¬p.IsJoin d := by
  intro hd
  obtain ⟨-, type, hckind⟩ := hc.kindAt_allElements
  obtain ⟨-, type', hdkind⟩ := hd.kindAt_allElements
  have hsplit := (h.kindAt hckind).1
  rw [hdkind] at hsplit
  exact absurd hsplit (by simp)

/-- The splits that open joins are told apart by their ids. -/
theorem OpenedBy.eq_of_idAt {c c' d d' : Nat} (h : p.OpenedBy c d) (hc : p.IsJoin c)
    (h' : p.OpenedBy c' d') (hc' : p.IsJoin c')
    (hid : idAt p.allElements d = idAt p.allElements d') : d = d' := by
  obtain ⟨-, type, hkind⟩ := hc.kindAt_allElements
  obtain ⟨-, type', hkind'⟩ := hc'.kindAt_allElements
  obtain ⟨-, id, hd, hpointer⟩ := h.kindAt hkind
  obtain ⟨-, id', hd', hpointer'⟩ := h'.kindAt hkind'
  obtain rfl : id = id' := by simpa [hd, hd'] using hid
  exact Option.mem_unique hpointer hpointer'

end Process

/-- What is known once the joins among the first `k` elements have been tagged. -/
structure JoinsTagged (p : Process) (k : Nat) (els : List Element) : Prop where
  same : SameGraph els p.allElements
  /-- a join has the split that opens it -/
  opened : ∀ c < k, p.IsJoin c → ∀ d, p.OpenedBy c d → recipAt els c = idAt p.allElements d
  /-- a join that no split opens is as it was -/
  unopened : ∀ c, p.IsJoin c → (k ≤ c ∨ ∀ d, ¬p.OpenedBy c d) →
    recipAt els c = recipAt p.allElements c
  /-- a split that opens joins has one of them -/
  opens : ∀ d, ∀ c < k, p.IsJoin c → p.OpenedBy c d →
    ∃ c' < k, p.IsJoin c' ∧ p.OpenedBy c' d ∧ recipAt els d = idAt p.allElements c'
  /-- any other element is as it was -/
  idle : ∀ d, ¬p.IsJoin d → (∀ c < k, p.IsJoin c → ¬p.OpenedBy c d) →
    recipAt els d = recipAt p.allElements d

section Joins

variable {p : Process} {k : Nat} {els els' : List Element}

/-- The second loop at an element that no split opens. -/
theorem JoinsTagged.succ_of_same (h : JoinsTagged p k els) (hsame : SameGraph els' p.allElements)
    (hrecip : ∀ k, recipAt els' k = recipAt els k)
    (hk : p.IsJoin k → ∀ d, ¬p.OpenedBy k d) : JoinsTagged p (k + 1) els' := by
  have hlt : ∀ {c d}, c < k + 1 → p.IsJoin c → p.OpenedBy c d → c < k := by
    intro c d hc hjoin hopen
    have hne : c ≠ k := fun heq => hk (heq ▸ hjoin) d (heq ▸ hopen)
    omega
  refine ⟨hsame, fun c hc hjoin d hd => ?_, fun c hjoin hor => ?_, fun d c hc hjoin hd => ?_,
    fun d hd hno => ?_⟩
  · rw [hrecip]
    exact h.opened c (hlt hc hjoin hd) hjoin d hd
  · rw [hrecip]
    exact h.unopened c hjoin (hor.imp_left fun hle => by omega)
  · obtain ⟨c', hc', hjoin', hopen', hrecip'⟩ := h.opens d c (hlt hc hjoin hd) hjoin hd
    exact ⟨c', by omega, hjoin', hopen', by rw [hrecip, hrecip']⟩
  · rw [hrecip]
    exact h.idle d hd fun c hc => hno c (by omega)

/-- The second loop at a join. -/
theorem JoinsTagged.succ_of_isJoin (hspec : p.GatewaysSpecified) (h : JoinsTagged p k els)
    (hk : p.IsJoin k)
    (htag : tagReciprocal (getElementIdReferences p) (indexPointers p) fuel k els =
      .done els') : JoinsTagged p (k + 1) els' := by
  obtain ⟨-, type, hkind⟩ := hk.kindAt_allElements
  obtain ⟨hsame, ⟨d₀, hopened, hrecip⟩ | ⟨hnot, hrecip⟩⟩ :=
    tagReciprocal_spec hspec h.same hkind htag
  · have hd₀ : ¬p.IsJoin d₀ := hopened.not_isJoin hk
    have hjoin_ne : ∀ {c}, p.IsJoin c → c ≠ d₀ := fun hjoin heq => hd₀ (heq ▸ hjoin)
    refine ⟨hsame, fun c hc hjoin d hd => ?_, fun c hjoin hor => ?_, fun d c hc hjoin hd => ?_,
      fun d hd hno => ?_⟩
    · rw [hrecip, if_neg (hjoin_ne hjoin)]
      by_cases hck : c = k
      · subst hck
        rw [if_pos rfl, hd.unique hopened]
      · rw [if_neg hck]
        exact h.opened c (by omega) hjoin d hd
    · have hck : c ≠ k := by
        rintro rfl
        rcases hor with hle | hno
        · omega
        · exact hno d₀ hopened
      rw [hrecip, if_neg (hjoin_ne hjoin), if_neg hck]
      exact h.unopened c hjoin (hor.imp_left fun hle => by omega)
    · by_cases hdd : d = d₀
      · subst hdd
        exact ⟨k, by omega, hk, hopened, by rw [hrecip, if_pos rfl]⟩
      · have hck : c ≠ k := fun heq => hdd ((heq ▸ hd).unique hopened)
        have hdk : d ≠ k := fun heq => hd.not_isJoin hjoin (heq ▸ hk)
        obtain ⟨c', hc', hjoin', hopen', hrecip'⟩ := h.opens d c (by omega) hjoin hd
        refine ⟨c', by omega, hjoin', hopen', ?_⟩
        rw [hrecip, if_neg hdd, if_neg hdk, hrecip']
    · have hdd : d ≠ d₀ := fun heq => hno k (by omega) hk (heq ▸ hopened)
      have hdk : d ≠ k := fun heq => hd (heq ▸ hk)
      rw [hrecip, if_neg hdd, if_neg hdk]
      exact h.idle d hd fun c hc => hno c (by omega)
  · exact h.succ_of_same hsame hrecip fun _ => hnot

/-- The second loop at any element. -/
theorem tagJoin_eq (hspec : p.GatewaysSpecified) (hsame : SameGraph els p.allElements)
    (hk : k < p.elements.length) (refs : GoMap (List String)) (index : GoMap Nat) (fuel : Nat) :
    (p.IsJoin k → tagJoin refs index fuel els k =
        (tagReciprocal refs index fuel k els).wrapErr "find reciprocal gateway") ∧
      (¬p.IsJoin k → tagJoin refs index fuel els k = .done els) := by
  have hlt : k < els.length := by
    rw [hsame.length_eq, Process.allElements, length_append]
    omega
  have he := List.getElem?_eq_getElem hlt
  obtain ⟨e', he', hshape⟩ := hsame.exists_shape_eq he
  generalize els[k] = e at he hshape
  have htype : e'.shape.type = e.shape.type := congrArg Element.type hshape
  rw [isJoin_iff hk, ← hsame.kindAt_eq, kindAt, tagJoin, he, deref_some, done_bind, bind_some,
    Element.kind]
  by_cases hgate : e.type = .gateway
  · obtain ⟨g', hg'⟩ := hspec e' (mem_of_getElem? he') (htype.trans hgate)
    have hgateway : e.shape.gateway = e'.shape.gateway := congrArg Element.gateway hshape.symm
    simp only [shape, hg', map_some, map_eq_some_iff] at hgateway
    obtain ⟨g, hg, -⟩ := hgateway
    by_cases hdir : g.direction = .convergent <;> simp [hgate, hg, hdir]
  · simp [hgate]

theorem Process.allElements_withElements (hlength : els.length = p.allElements.length) :
    (p.withElements els).allElements = els ∧
      (p.withElements els).elements.length = p.elements.length := by
  constructor
  · exact take_append_drop _ _
  · rw [Process.withElements, length_take, hlength, Process.allElements, length_append]
    omega

/-- **What the second loop of the tagger has done.** -/
theorem tagJoins_spec {p' : Process} (hspec : p.GatewaysSpecified)
    (h : tagJoins fuel p = .done p') :
    JoinsTagged p p.elements.length p'.allElements ∧ p'.elements.length = p.elements.length := by
  rw [tagJoins, bind_eq_done] at h
  obtain ⟨els, hfold, h⟩ := h
  obtain rfl : p.withElements els = p' := by simpa using h
  have hinit : JoinsTagged p 0 p.allElements :=
    ⟨.refl _, fun c hc => by omega, fun _ _ _ => rfl, fun d c hc => by omega, fun _ _ _ => rfl⟩
  have htagged : JoinsTagged p p.elements.length els := by
    refine foldlM_range_inv (JoinsTagged p) (fun k hk b b' hb hround => ?_) hinit hfold
    obtain ⟨hjoin, hother⟩ := tagJoin_eq hspec hb.same hk (getElementIdReferences p)
      (indexPointers p) fuel
    by_cases hkjoin : p.IsJoin k
    · rw [hjoin hkjoin, wrapErr_eq_done] at hround
      exact hb.succ_of_isJoin hspec hkjoin hround
    · rw [hother hkjoin, Parsed.done.injEq] at hround
      exact hround ▸ hb.succ_of_same hb.same (fun _ => rfl) fun hjoin => absurd hjoin hkjoin
  obtain ⟨hall, hlength⟩ := allElements_withElements htagged.same.length_eq
  rw [hall]
  exact ⟨htagged, hlength⟩

/-- The second loop of the tagger succeeds when every search ends. -/
theorem exists_tagJoins (hspec : p.GatewaysSpecified)
    (hends : ∀ c, p.IsJoin c → ∃ r, recurseRecip p.allElements (getElementIdReferences p)
      (indexPointers p) c fuel c 0 [] = .done r) :
    ∃ p', tagJoins fuel p = .done p' := by
  have hfold : ∃ els, (List.range p.elements.length).foldlM
      (tagJoin (getElementIdReferences p) (indexPointers p) fuel) p.allElements =
        .done els ∧ SameGraph els p.allElements := by
    refine exists_foldlM_inv (SameGraph · p.allElements) (fun k hk els hsame => ?_) (.refl _)
    obtain ⟨hjoin, hother⟩ := tagJoin_eq hspec hsame (mem_range.1 hk)
      (getElementIdReferences p) (indexPointers p) fuel
    by_cases hkjoin : p.IsJoin k
    · obtain ⟨-, type, hkind⟩ := hkjoin.kindAt_allElements
      obtain ⟨r, hr⟩ := hends k hkjoin
      obtain ⟨els', htag⟩ := exists_tagReciprocal hspec hsame hkind hr
      exact ⟨els', by rw [hjoin hkjoin, htag]; rfl, (tagReciprocal_spec hspec hsame hkind htag).1⟩
    · exact ⟨els, hother hkjoin, hsame⟩
  obtain ⟨els, hels, -⟩ := hfold
  exact ⟨p.withElements els, by rw [tagJoins, hels]; rfl⟩

end Joins

/-! ### What is accepted -/

variable {wf : Workflow} {key : String}

/-- A tagged process is the result of tagging the process of the same key. -/
theorem exists_of_tagWorkflow {wf' : Workflow} (h : tagWorkflow fuel wf = .done wf') {p' : Process}
    (hp' : wf'.process.lookup key = some p') :
    ∃ p, wf.process.lookup key = some p ∧ tagGateways fuel p = .done p' := by
  -- what has not been tagged yet is as it was
  have hfold : ∀ (l : List (Sigma fun _ : String => Process)) (wf₀ : Workflow),
      l.foldlM (tagProcess fuel) wf₀ = .done wf' →
      (∃ p, ⟨key, p⟩ ∈ l ∧ tagGateways fuel p = .done p') ∨
        (key ∉ l.map (·.1) ∧ wf₀.process.lookup key = some p') := by
    intro l
    induction l with
    | nil =>
      intro wf₀ hdone
      obtain rfl : wf₀ = wf' := by simpa using hdone
      exact .inr ⟨by simp, hp'⟩
    | cons e l ih =>
      intro wf₀ hdone
      rw [foldlM_cons, bind_eq_done] at hdone
      obtain ⟨wf₁, htag, hrest⟩ := hdone
      rw [tagProcess, bind_eq_done] at htag
      obtain ⟨tagged, htagged, hwf₁⟩ := htag
      rw [wrapErr_eq_done] at htagged
      obtain rfl : { wf₀ with process := wf₀.process.insert e.1 tagged } = wf₁ := by
        simpa using hwf₁
      rcases ih _ hrest with ⟨p, hmem, hp⟩ | ⟨hnot, hlookup⟩
      · exact .inl ⟨p, mem_cons_of_mem _ hmem, hp⟩
      · by_cases hkey : key = e.1
        · subst hkey
          rw [AList.lookup_insert, Option.some.injEq] at hlookup
          exact .inl ⟨e.2, mem_cons_self, hlookup ▸ htagged⟩
        · rw [AList.lookup_insert_ne hkey] at hlookup
          refine .inr ⟨?_, hlookup⟩
          rw [map_cons, mem_cons, not_or]
          exact ⟨hkey, hnot⟩
  rcases hfold _ wf h with ⟨p, hmem, hp⟩ | ⟨hnot, hlookup⟩
  · exact ⟨p, AList.mem_lookup_iff.2 hmem, hp⟩
  · have hkey : key ∈ wf.process.keys := AList.lookup_isSome.1 (by rw [hlookup]; rfl)
    exact absurd hkey hnot

/-- A process that has been tagged has its directions, and then its joins. -/
theorem tagGateways_eq_done {p p' : Process} (h : tagGateways fuel p = .done p') :
    tagDirections p = .done p.directed ∧ tagJoins fuel p.directed = .done p' := by
  rw [tagGateways, bind_eq_done] at h
  obtain ⟨p₁, hdir, hjoins⟩ := h
  obtain rfl := eq_directed_of_tagDirections hdir
  exact ⟨hdir, hjoins⟩

/-- The elements of a process have an id, and its joins a split. -/
def Process.Named (p : Process) : Prop :=
  ∀ (k : Nat) (e : Element), p.elements[k]? = some e → e.id ≠ "" ∧
    ∀ type, e.kind = some (type, .convergent) → e.gateway.map (·.reciprocalId) ≠ some ""

/-- The elements of a process that is accepted are named. -/
theorem named_of_validModel {lib : Lib} {order : String → String → String → MapOrder}
    (h : validModel lib order fuel wf = .done ()) {p : Process}
    (hp : wf.process.lookup key = some p) : p.Named := by
  intro k e he
  rw [validModel, bind_eq_done] at h
  obtain ⟨_, hprocesses, -⟩ := h
  have hprocess := forM_each hprocesses (AList.mem_lookup_iff.1 hp)
  rw [validProcess, bind_eq_done] at hprocess
  obtain ⟨_, -, hprocess⟩ := hprocess
  rw [bind_eq_done] at hprocess
  obtain ⟨_, helements, -⟩ := hprocess
  have hvalid := forM_each helements (mem_of_getElem? he)
  unfold validElement at hvalid
  by_cases hid : e.id = ""
  · simp [hid] at hvalid
  refine ⟨hid, fun type hkind => ?_⟩
  have htype : e.type = .gateway := by
    by_contra hne
    simp [Element.kind, hne] at hkind
  have hgateway : e.gateway.map (fun g => (g.type, g.direction)) = some (type, .convergent) := by
    simpa [Element.kind, htype] using hkind
  obtain ⟨g, hg, hpair⟩ := map_eq_some_iff.1 hgateway
  have hdir : g.direction = .convergent := congrArg Prod.snd hpair
  rw [hg, map_some]
  intro hempty
  obtain hrecip : g.reciprocalId = "" := by simpa using hempty
  simp [hid, htype, hg, hdir, hrecip] at hvalid

/-! ### The pairing -/

namespace Process

/-- The reciprocal fields form a **one-to-one pairing**: that of a join names a split of the process
and of the same type, whose own field names the join; and no two joins name the same split. -/
structure Paired (p : Process) : Prop where
  reciprocal : ∀ c type, kindAt p.elements c = some (type, .convergent) →
    ∃ d, kindAt p.elements d = some (type, .divergent) ∧
      recipAt p.elements c = idAt p.elements d ∧ recipAt p.elements d = idAt p.elements c
  injective : ∀ c c', p.IsJoin c → p.IsJoin c' →
    recipAt p.elements c = recipAt p.elements c' → c = c'

/-- A split that opens a join is an element of the process itself, and opens no other join. -/
def OpenedOnce (p : Process) : Prop :=
  ∀ c d, p.IsJoin c → p.OpenedBy c d →
    d < p.elements.length ∧ ∀ c', p.IsJoin c' → p.OpenedBy c' d → c' = c

theorem getElem?_elements (p : Process) (hi : i < p.elements.length) :
    p.elements[i]? = p.allElements[i]? := by
  rw [allElements, List.getElem?_append_left hi]

theorem lt_of_kindAt_elements {p : Process} {kind : GatewayType × GatewayDirection}
    (h : kindAt p.elements i = some kind) : i < p.elements.length := by
  obtain ⟨e, he, -⟩ := bind_eq_some_iff.1 h
  exact (List.getElem?_eq_some_iff.1 he).1

end Process

section Pairing

variable {q p' : Process} (htagged : JoinsTagged q q.elements.length p'.allElements)
  (hlength : p'.elements.length = q.elements.length)
  (hfresh : ∀ k s, recipAt q.allElements k = some s → s = "")
  (hvalid : p'.Named)

include htagged hlength

theorem kindAt_tagged {k : Nat} (hk : k < q.elements.length) :
    kindAt p'.elements k = kindAt q.allElements k := by
  rw [kindAt, p'.getElem?_elements (hlength ▸ hk), ← htagged.same.kindAt_eq, kindAt]

theorem idAt_tagged {k : Nat} (hk : k < q.elements.length) :
    idAt p'.elements k = idAt q.allElements k := by
  rw [idAt, p'.getElem?_elements (hlength ▸ hk), ← htagged.same.idAt_eq, idAt]

omit htagged in
theorem recipAt_tagged {k : Nat} (hk : k < q.elements.length) :
    recipAt p'.elements k = recipAt p'.allElements k := by
  rw [recipAt, p'.getElem?_elements (hlength ▸ hk), recipAt]

theorem isJoin_tagged {k : Nat} : p'.IsJoin k ↔ q.IsJoin k := by
  constructor
  · rintro ⟨type, hkind⟩
    have hk : k < q.elements.length := hlength ▸ lt_of_kindAt_elements hkind
    exact (isJoin_iff hk).2 ⟨type, kindAt_tagged htagged hlength hk ▸ hkind⟩
  · intro hjoin
    obtain ⟨hk, type, hkind⟩ := hjoin.kindAt_allElements
    exact ⟨type, by rw [kindAt_tagged htagged hlength hk, hkind]⟩

include hfresh hvalid

/-- A join that is accepted is opened by a split. -/
theorem exists_openedBy {c : Nat} (hc : q.IsJoin c) :
    ∃ d, q.OpenedBy c d ∧ recipAt p'.elements c = idAt q.allElements d := by
  obtain ⟨hlt, type, hkind⟩ := hc.kindAt_allElements
  by_cases hopen : ∃ d, q.OpenedBy c d
  · obtain ⟨d, hd⟩ := hopen
    refine ⟨d, hd, ?_⟩
    rw [recipAt_tagged hlength hlt]
    exact htagged.opened c hlt hc d hd
  · -- the field of the join is still empty
    rw [not_exists] at hopen
    have hkind' : kindAt p'.elements c = some (type, .convergent) := by
      rw [kindAt_tagged htagged hlength hlt, hkind]
    obtain ⟨e, he, hekind⟩ := bind_eq_some_iff.1 hkind'
    have hrecip : recipAt p'.elements c = recipAt q.allElements c := by
      rw [recipAt_tagged hlength hlt]
      exact htagged.unopened c hc (.inr hopen)
    rw [recipAt, he, bind_some] at hrecip
    have hne := (hvalid c e he).2 type hekind
    cases hempty : e.gateway.map (·.reciprocalId) with
    | none =>
      unfold Element.kind at hekind
      rw [map_eq_none_iff] at hempty
      simp [hempty] at hekind
    | some s =>
      rw [hempty] at hrecip hne
      exact absurd (congrArg some (hfresh c s hrecip.symm)) hne

/-- The pairing is one-to-one when no split opens two joins. -/
theorem paired_of_openedOnce (h : q.OpenedOnce) : p'.Paired := by
  constructor
  · intro c type hkind
    have hjoin : q.IsJoin c := (isJoin_tagged htagged hlength).1 ⟨type, hkind⟩
    obtain ⟨hlt, -⟩ := hjoin.kindAt_allElements
    obtain ⟨d, hopen, hrecip⟩ := exists_openedBy htagged hlength hfresh hvalid hjoin
    obtain ⟨hd, honce⟩ := h c d hjoin hopen
    rw [kindAt_tagged htagged hlength hlt] at hkind
    refine ⟨d, ?_, ?_, ?_⟩
    · rw [kindAt_tagged htagged hlength hd]
      exact (hopen.kindAt hkind).1
    · rw [hrecip, idAt_tagged htagged hlength hd]
    · obtain ⟨c', -, hjoin', hopen', hrecip'⟩ := htagged.opens d c hlt hjoin hopen
      rw [recipAt_tagged hlength hd, hrecip', honce c' hjoin' hopen',
        idAt_tagged htagged hlength hlt]
  · intro c c' hc hc' hrecip
    have hjoin := (isJoin_tagged htagged hlength).1 hc
    have hjoin' := (isJoin_tagged htagged hlength).1 hc'
    obtain ⟨d, hopen, hd⟩ := exists_openedBy htagged hlength hfresh hvalid hjoin
    obtain ⟨d', hopen', hd'⟩ := exists_openedBy htagged hlength hfresh hvalid hjoin'
    rw [hd, hd'] at hrecip
    obtain rfl : d = d' := hopen.eq_of_idAt hjoin hopen' hjoin' hrecip
    exact (h c' d hjoin' hopen').2 c hjoin hopen

/-- A one-to-one pairing leaves no split that opens two joins. -/
theorem openedOnce_of_paired (h : p'.Paired) : q.OpenedOnce := by
  intro c d hjoin hopen
  obtain ⟨hlt, type, hkind⟩ := hjoin.kindAt_allElements
  have hrecip : ∀ {c}, q.IsJoin c → q.OpenedBy c d →
      recipAt p'.elements c = idAt q.allElements d := by
    intro c hjoin hopen
    rw [recipAt_tagged hlength hjoin.kindAt_allElements.1]
    exact htagged.opened c hjoin.kindAt_allElements.1 hjoin d hopen
  constructor
  · have hkind' : kindAt p'.elements c = some (type, .convergent) := by
      rw [kindAt_tagged htagged hlength hlt, hkind]
    obtain ⟨d', hd', hnamed, hback⟩ := h.reciprocal c type hkind'
    have hlt' : d' < q.elements.length := hlength ▸ lt_of_kindAt_elements hd'
    have hnot : ¬q.IsJoin d' := by
      rintro hjoin'
      obtain ⟨-, type', hkind''⟩ := hjoin'.kindAt_allElements
      rw [kindAt_tagged htagged hlength hlt', hkind''] at hd'
      exact absurd hd' (by simp)
    -- the split that is named has been written to, and so opens a join itself
    obtain ⟨c', hjoin', hopen'⟩ : ∃ c', q.IsJoin c' ∧ q.OpenedBy c' d' := by
      by_contra hno
      have hidle := htagged.idle d' hnot fun c' _ hjoin' hopen' => hno ⟨c', hjoin', hopen'⟩
      rw [recipAt_tagged hlength hlt', hidle] at hback
      obtain ⟨e, he, -⟩ := bind_eq_some_iff.1 hkind'
      rw [idAt, he, map_some] at hback
      exact (hvalid c e he).1 (hfresh d' e.id hback)
    rw [hrecip hjoin hopen, idAt_tagged htagged hlength hlt'] at hnamed
    obtain rfl : d = d' := hopen.eq_of_idAt hjoin hopen' hjoin' hnamed
    exact hlt'
  · intro c' hjoin' hopen'
    refine h.injective c' c ((isJoin_tagged htagged hlength).2 hjoin')
      ((isJoin_tagged htagged hlength).2 hjoin) ?_
    rw [hrecip hjoin' hopen', hrecip hjoin hopen]

end Pairing

theorem unpaired_directed {p : Process} (h : p.AsParsed) (k : Nat) (s : String)
    (hs : recipAt p.directed.allElements k = some s) : s = "" := by
  obtain ⟨e, he, hrecip⟩ := bind_eq_some_iff.1 hs
  obtain ⟨g, hg, rfl⟩ := map_eq_some_iff.1 hrecip
  have hmem := mem_of_getElem? he
  rw [Process.allElements, mem_append] at hmem
  rcases hmem with hmem | hmem
  · obtain ⟨el, hel, rfl⟩ := mem_map.1 hmem
    have hold : ∀ g', el.gateway = some g' → g'.reciprocalId = "" :=
      h.unpaired el (mem_append_left _ hel)
    unfold Process.directedElement at hg
    split at hg
    · cases hdir : directionOf (predecessors p.elements el.id).length el.targetIds.length with
      | none =>
        rw [hdir] at hg
        exact hold g hg
      | some direction =>
        rw [hdir, map_some, getD_some, Element.directed] at hg
        obtain ⟨g', hg', rfl⟩ := map_eq_some_iff.1 hg
        exact hold g' hg'
    · exact hold g hg
  · exact h.unpaired e (mem_append_right _ hmem) g hg

/-- **In a workflow that is accepted the reciprocal fields of a process form a pairing exactly when
no split opens two joins.** -/
theorem paired_iff (lib : Lib) (order : String → String → String → MapOrder) (fuel fuel' : Nat)
    (wf wf' : Workflow) (htag : tagWorkflow fuel wf = .done wf')
    (hvalid : validModel lib order fuel' wf' = .done ()) (key : String) (p p' : Process)
    (hp : wf.process.lookup key = some p) (hp' : wf'.process.lookup key = some p')
    (hparsed : p.AsParsed) : p'.Paired ↔ p.directed.OpenedOnce := by
  obtain ⟨p₀, hp₀, htagged⟩ := exists_of_tagWorkflow htag hp'
  obtain rfl : p = p₀ := Option.mem_unique hp hp₀
  obtain ⟨hdir, hjoins⟩ := tagGateways_eq_done htagged
  have hspec := gatewaysSpecified_of_tagDirections hdir hparsed.specified
  obtain ⟨hspecs, hlength⟩ := tagJoins_spec hspec hjoins
  have hnamed := named_of_validModel hvalid hp'
  exact ⟨openedOnce_of_paired hspecs hlength (unpaired_directed hparsed) hnamed,
    paired_of_openedOnce hspecs hlength (unpaired_directed hparsed) hnamed⟩

/-- A workflow of one process. -/
def workflowOf (p : Process) : Workflow := { process := AList.insert p.id p ∅ }

/-- A gateway as the tagger leaves it. -/
def gatewayPaired (type : GatewayType) (direction : GatewayDirection) (id reciprocalId : String)
    (targets : List String) : Element :=
  { id := id, type := .gateway, outbound := flowsTo targets
    gateway := some { type := type, direction := direction, reciprocalId := reciprocalId } }

/-- The choice between two tasks, tagged. -/
def diamondTagged : Process :=
  { diamond with
    elements := [startTo "start" "fork",
      gatewayPaired .exclusive .divergent "fork" "join" ["a", "b"], writerTo "a" "join" "x",
      taskTo "b" "join", gatewayPaired .exclusive .convergent "join" "fork" ["end"], endAt "end"] }

theorem paired_iff_diamond : tagWorkflow 8 (workflowOf diamond) = .done (workflowOf diamondTagged) ∧
      validModel (constLib ∅) (fun _ _ _ => .listed) 8 (workflowOf diamondTagged) = .done () ∧
      (diamondTagged.Paired ↔ diamond.directed.OpenedOnce) := by
  have htag : tagWorkflow 8 (workflowOf diamond) = .done (workflowOf diamondTagged) := rfl
  have hvalid : validModel (constLib ∅) (fun _ _ _ => .listed) 8 (workflowOf diamondTagged) =
      .done () := rfl
  have hparsed : diamond.AsParsed := asParsed_of_all rfl
  exact ⟨htag, hvalid, paired_iff (constLib ∅) (fun _ _ _ => .listed) 8 8 _ _ htag hvalid "choice"
    diamond diamondTagged rfl rfl hparsed⟩

/-- A choice between four tasks that is closed by two joins. -/
def twoJoins : Process :=
  { id := "twoJoins"
    elements := [startTo "start" "fork", gatewayTo .exclusive "fork" ["a", "b", "c", "d"],
      taskTo "a" "first", taskTo "b" "first", taskTo "c" "second", taskTo "d" "second",
      gatewayTo .exclusive "first" ["end"], gatewayTo .exclusive "second" ["end"], endAt "end"] }

/-- The choice with two joins, tagged: the last join has overwritten the field of the split. -/
def twoJoinsTagged : Process :=
  { twoJoins with
    elements := [startTo "start" "fork",
      gatewayPaired .exclusive .divergent "fork" "second" ["a", "b", "c", "d"], taskTo "a" "first",
      taskTo "b" "first", taskTo "c" "second", taskTo "d" "second",
      gatewayPaired .exclusive .convergent "first" "fork" ["end"],
      gatewayPaired .exclusive .convergent "second" "fork" ["end"], endAt "end"] }

/-- Two joins of one split are accepted, and both name it. -/
theorem twoJoins_not_paired :
    tagWorkflow 8 (workflowOf twoJoins) = .done (workflowOf twoJoinsTagged) ∧
      validModel (constLib ∅) (fun _ _ _ => .listed) 8 (workflowOf twoJoinsTagged) = .done () ∧
      ¬twoJoinsTagged.Paired := by
  refine ⟨rfl, rfl, fun h => ?_⟩
  have heq : 6 = 7 := h.injective 6 7 ⟨.exclusive, rfl⟩ ⟨.exclusive, rfl⟩ rfl
  exact absurd heq (by decide)

end SharWorkflow
