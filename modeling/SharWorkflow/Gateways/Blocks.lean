import SharWorkflow.Graph.Blocks
import SharWorkflow.Gateways.Pairing

/-!
# Block-structured processes

A process is **block-structured** if its elements, between a start and an end, are a body of
properly nested blocks: every block opens with a split and closes with a join of the same type, and
has at least two branches, which may be empty (`BlockStructured`).

The search from the join of a block passes over every block within a branch: a nested block of the
same type adds one to the count at its join and takes it off at its split, and a block of another
type is not counted. So every walk comes to the split of the block with nothing counted, which is
where it stops.

* `findsOnly_exit`: what is found before a body is found from its end, with the same count.
* `tagGateways_blocks_iff`: the tagger pairs the splits and the joins of all blocks, unless a split
  has the id by which the search says that it has found none.
-/

namespace SharWorkflow

open Graph List Process

/-! ### Flows by id -/

variable {e el : Element}

namespace Process

variable (p : Process)

/-- The element of the process with an id. -/
def elementOf (id : String) : Option Element := p.elements.find? (·.id = id)

/-- The ids that the flows of an element lead to. -/
def out (id : String) : List String := ((p.elementOf id).map (·.targetIds)).getD []

/-- The type of a gateway. -/
def gatewayTypeOf (id : String) : Option GatewayType :=
  (p.elementOf id).bind fun e => e.kind.map (·.1)

/-- The flows of a process, each from an id to an id. -/
def flows : List (String × String) := p.elements.flatMap fun el => el.targetIds.map (Prod.mk el.id)

variable {p}

theorem predecessors_eq (id : String) :
    predecessors p.elements id = (p.flows.filter (·.2 = id)).map (·.1) := by
  unfold predecessors flows
  rw [filter_flatMap, map_flatMap]
  refine flatMap_congr fun el _ => ?_
  rw [filter_map, List.map_map, count_eq_length_filter, eq_comm, eq_replicate_iff]
  constructor
  · rw [length_map]
    rfl
  · intro x hx
    obtain ⟨t, -, rfl⟩ := mem_map.1 hx
    rfl

theorem elementOf_eq (hnodup : (p.elements.map (·.id)).Nodup) (he : e ∈ p.elements) :
    p.elementOf e.id = some e := by
  cases hfind : p.elementOf e.id with
  | none =>
    have hnone := List.find?_eq_none.1 hfind e he
    simp at hnone
  | some e' =>
    have hid : e'.id = e.id := by simpa using List.find?_some hfind
    exact congrArg some
      (inj_on_of_nodup_map hnodup (mem_of_find?_eq_some hfind) he hid)

variable {id : String}

theorem elementOf_eq_some (h : p.elementOf id = some e) : e ∈ p.elements ∧ e.id = id :=
  ⟨mem_of_find?_eq_some h, by simpa using List.find?_some h⟩

theorem out_eq (hnodup : (p.elements.map (·.id)).Nodup) (he : e ∈ p.elements) :
    p.out e.id = e.targetIds := by
  rw [out, elementOf_eq hnodup he]
  rfl

theorem flows_eq_listed (hnodup : (p.elements.map (·.id)).Nodup) :
    p.flows = Body.listed p.out (p.elements.map (·.id)) := by
  unfold flows Body.listed
  rw [flatMap_map]
  exact flatMap_congr fun e he => by rw [out_eq hnodup he]

/-! ### Pointers and ids -/

section Nodup

variable (hnodup : (p.allElements.map (·.id)).Nodup)

include hnodup

theorem eq_of_idAt_eq {x y : Nat} (hx : idAt p.allElements x = some id)
    (hy : idAt p.allElements y = some id) : x = y := by
  rw [idAt, ← List.getElem?_map] at hx hy
  have hlt := (List.getElem?_eq_some_iff.1 hx).1
  exact (List.getElem?_inj hlt hnodup).1 (hx.trans hy.symm)

theorem pointer_eq_some_iff {x : Nat} : p.pointer id = some x ↔ idAt p.allElements x = some id := by
  constructor
  · intro h
    obtain ⟨e, he, rfl⟩ := getElem?_of_lookup_indexPointers h
    rw [idAt, he, Option.map_some]
  · intro h
    obtain ⟨e, he, rfl⟩ := Option.map_eq_some_iff.1 h
    obtain ⟨y, hy⟩ := exists_lookup_indexPointers (mem_of_getElem? he)
    obtain ⟨e', he', hid⟩ := getElem?_of_lookup_indexPointers hy
    have hyid : idAt p.allElements y = some e.id := by rw [idAt, he', Option.map_some, hid]
    obtain rfl : x = y := eq_of_idAt_eq hnodup h hyid
    exact hy

/-- A flow between two pointers is a flow between their ids. -/
theorem flow_iff_mem_flows {x y : Nat} :
    p.Flow y x ↔ ∃ a b, idAt p.allElements y = some a ∧ idAt p.allElements x = some b ∧
      (a, b) ∈ p.flows := by
  simp only [Flow, pointer_eq_some_iff hnodup, flows, mem_flatMap, mem_map,
    Prod.mk.injEq]
  constructor
  · rintro ⟨el, hel, e, he, hid, hy⟩
    exact ⟨el.id, e.id, hy, by rw [idAt, he, Option.map_some], el, hel, e.id, hid, rfl, rfl⟩
  · rintro ⟨a, b, ha, hb, el, hel, t, ht, rfl, rfl⟩
    obtain ⟨e, he, rfl⟩ := Option.map_eq_some_iff.1 hb
    exact ⟨el, hel, e, he, ht, ha⟩

/-- An element of the process is behind the pointer of its id. -/
theorem getElem?_of_idAt {x : Nat} (he : e ∈ p.elements)
    (hx : idAt p.allElements x = some e.id) : p.elements[x]? = some e := by
  obtain ⟨i, hi⟩ := mem_iff_getElem?.1 he
  have hlt := (List.getElem?_eq_some_iff.1 hi).1
  have hid : idAt p.allElements i = some e.id := by
    rw [idAt, ← p.getElem?_elements hlt, hi, Option.map_some]
  rw [eq_of_idAt_eq hnodup hx hid, hi]

end Nodup

/-! ### The process with its directions -/

@[simp]
theorem id_directedElement (el : Element) : (p.directedElement el).id = el.id := by
  unfold directedElement
  split
  · cases directionOf (predecessors p.elements el.id).length el.targetIds.length <;> rfl
  · rfl

@[simp]
theorem targetIds_directedElement (el : Element) :
    (p.directedElement el).targetIds = el.targetIds := by
  unfold directedElement
  split
  · cases directionOf (predecessors p.elements el.id).length el.targetIds.length <;> rfl
  · rfl

theorem kind_directedElement {g : GatewaySpec} {direction : GatewayDirection}
    (htype : el.type = .gateway) (hg : el.gateway = some g)
    (hdir : directionOf (predecessors p.elements el.id).length el.targetIds.length =
      some direction) : (p.directedElement el).kind = some (g.type, direction) := by
  have heq : p.directedElement el = el.directed direction := by
    rw [directedElement, if_pos htype, hdir]
    rfl
  rw [heq, Element.kind, if_pos (show (el.directed direction).type = .gateway from htype),
    Element.directed, hg]
  rfl

theorem kind_directedElement_eq_none (htype : el.type ≠ .gateway) :
    (p.directedElement el).kind = none := by
  rw [directedElement, if_neg htype, Element.kind, if_neg htype]

theorem getElem?_directed {x : Nat} (he : p.elements[x]? = some e) :
    p.directed.allElements[x]? = some (p.directedElement e) := by
  have hlt := (List.getElem?_eq_some_iff.1 he).1
  have hlt' : x < p.directed.elements.length := by
    rw [directed, length_map]
    exact hlt
  rw [← p.directed.getElem?_elements hlt', directed, List.getElem?_map, he, Option.map_some]

theorem map_id_directed : p.directed.allElements.map (·.id) = p.allElements.map (·.id) := by
  simp [allElements, directed, Function.comp_def]

theorem idAt_directed (x : Nat) : idAt p.directed.allElements x = idAt p.allElements x := by
  rw [idAt, idAt, ← List.getElem?_map, ← List.getElem?_map, map_id_directed]

theorem flows_directed : p.directed.flows = p.flows := by
  simp [flows, directed, flatMap_map]

end Process

/-! ### A search that finds one thing -/

/-- The search from `gw` ends at the element `a` with the count `s`, and all that it finds from
there is `id`. -/
def FindsOnly (q : Process) (gw : Nat) (id a : String) (s : Nat) : Prop :=
  ∀ x, idAt q.allElements x = some a →
    Acc (flip (q.BackStep gw)) (x, s) ∧ ∀ id', q.Finds gw (x, s) id' ↔ id' = id

section FindsOnly

variable {q : Process} {gw : Nat} {a id : String} {s s' : Nat}

/-- The search stops at an element. -/
theorem FindsOnly.of_stop (h : ∀ x, idAt q.allElements x = some a → q.entered gw x s = none) :
    FindsOnly q gw a a s := fun x hx => finds_of_entered_eq_none (h x hx) hx

/-- The search goes on from an element to those before it, and finds the same from all of them. -/
theorem FindsOnly.of_step (hnodup : (q.allElements.map (·.id)).Nodup)
    (h : ∀ x, idAt q.allElements x = some a → q.entered gw x s = some s')
    (hsome : ∃ b, (b, a) ∈ q.flows)
    (hall : ∀ b, (b, a) ∈ q.flows → FindsOnly q gw id b s') : FindsOnly q gw id a s := by
  intro x hx
  have hstep : ∀ d, q.BackStep gw (x, s) d ↔
      d.2 = s' ∧ ∃ b, idAt q.allElements d.1 = some b ∧ (b, a) ∈ q.flows := by
    intro d
    simp only [backStep_iff (h x hx), flow_iff_mem_flows hnodup, hx,
      Option.some.injEq]
    constructor
    · rintro ⟨⟨b, _, hb, rfl, hflow⟩, hs⟩
      exact ⟨hs, b, hb, hflow⟩
    · rintro ⟨hs, b, hb, hflow⟩
      exact ⟨⟨b, a, hb, rfl, hflow⟩, hs⟩
  -- the element has a flow into it, so that the search does not end there
  obtain ⟨y, hy⟩ : ∃ y, q.BackStep gw (x, s) (y, s') := by
    obtain ⟨b, hflow⟩ := hsome
    obtain ⟨el, hel, hmem⟩ := mem_flatMap.1 hflow
    obtain ⟨_, -, heq⟩ := mem_map.1 hmem
    obtain rfl : el.id = b := congrArg Prod.fst heq
    obtain ⟨i, hi⟩ := mem_iff_getElem?.1 (mem_append_left q.subElements hel)
    exact ⟨i, (hstep _).2 ⟨rfl, el.id, by rw [idAt, allElements, hi, Option.map_some],
      hflow⟩⟩
  have hend : ∀ id', ¬q.EndsAt gw (x, s) id' := by
    intro id' hend
    simp only [Process.EndsAt, h x hx] at hend
    exact hend.1 y hy.2
  constructor
  · refine ⟨_, ?_⟩
    rintro ⟨z, t⟩ hz
    obtain ⟨rfl, b, hb, hflow⟩ := (hstep _).1 hz
    exact (hall b hflow z hb).1
  · intro id'
    rw [finds_iff]
    constructor
    · rintro (hend' | ⟨⟨z, t⟩, hz, hfinds⟩)
      · exact absurd hend' (hend id')
      · obtain ⟨rfl, b, hb, hflow⟩ := (hstep _).1 hz
        exact ((hall b hflow z hb).2 id').1 hfinds
    · rintro rfl
      obtain ⟨-, b, hb, hflow⟩ := (hstep _).1 hy
      exact .inr ⟨_, hy, ((hall b hflow y hb).2 _).2 rfl⟩

section Entered

variable {x : Nat} {type type' : GatewayType} {direction direction' : GatewayDirection}
  (hgw : kindAt q.allElements gw = some (type, direction))

include hgw

theorem entered_of_join (hx : kindAt q.allElements x = some (type, .convergent)) (hne : gw ≠ x) :
    q.entered gw x s = some (s + 1) := by
  simp [entered, hgw, hx, hne]

theorem entered_of_split (hx : kindAt q.allElements x = some (type, .divergent)) (hne : gw ≠ x) :
    q.entered gw x s = if s = 0 then none else some (s - 1) := by
  simp [entered, hgw, hx, hne]

/-- Only the gateways of its own type change the count of a search. -/
theorem entered_of_other_type (hx : kindAt q.allElements x = some (type', direction'))
    (hne : type ≠ type') : q.entered gw x s = some s := by
  simp [entered, hgw, hx, hne]

end Entered

theorem entered_of_kindAt_eq_none {x : Nat} (hx : kindAt q.allElements x = none) :
    q.entered gw x s = some s := by
  rw [entered, hx]
  cases kindAt q.allElements gw <;> rfl

end FindsOnly

variable {l : List (String × String)}

/-- What leads to a node in a list of edges. -/
theorem mem_iff_of_filter_perm {E : List (String × String)} {x y : String}
    (h : (E.filter (·.2 = x)).Perm l) : (y, x) ∈ E ↔ (y, x) ∈ l := by
  rw [← h.mem_iff, mem_filter]
  simp

/-! ### Block structure -/

/-- The process is a start, a body of properly nested blocks, and an end. Its elements come in any
order, and the flows of a split in the order of the branches. -/
structure BlockStructured (p : Process) where
  start : String
  finish : String
  body : Body String
  /-- the elements of the process are those of the body, with the start and the end -/
  ids : (p.elements.map (·.id)).Perm (start :: (body.nodes ++ [finish]))
  /-- no two elements have the same id -/
  nodup : (p.allElements.map (·.id)).Nodup
  start_out : p.out start = [body.entry finish]
  wires : body.Wires p.out finish
  finish_out : p.out finish = []
  /-- the start, the end and the single elements are not gateways -/
  tasks : ∀ e ∈ p.elements, e.id = start ∨ e.id = finish ∨ e.id ∈ body.leaves → e.type ≠ .gateway
  /-- every block has at least two branches, and its split and its join are of the same type -/
  gates : ∀ s j bs, (s, j, bs) ∈ body.gates → 2 ≤ bs.length ∧
    ∃ type, p.gatewayTypeOf s = some type ∧ p.gatewayTypeOf j = some type

variable {j : String} {bs : List (Body String)} {p' : Process} {fuel : Nat}

namespace BlockStructured

variable {p : Process} (B : BlockStructured p)

include B

theorem nodup_elements : (p.elements.map (·.id)).Nodup := by
  have hnodup := B.nodup
  rw [allElements, map_append] at hnodup
  exact (nodup_append'.1 hnodup).1

theorem nodup_body : (B.start :: (B.body.nodes ++ [B.finish])).Nodup :=
  B.ids.nodup_iff.1 B.nodup_elements

/-- The flows of the process are the edges of the body. -/
theorem flows_perm : p.flows.Perm (B.body.edges B.start B.finish) := by
  rw [flows_eq_listed B.nodup_elements]
  have hlisted : (Body.listed p.out (p.elements.map (·.id))).Perm
      (Body.listed p.out (B.start :: (B.body.nodes ++ [B.finish]))) := B.ids.flatMap_right _
  have heq : Body.listed p.out (B.start :: (B.body.nodes ++ [B.finish])) =
      (B.start, B.body.entry B.finish) :: Body.listed p.out B.body.nodes := by
    simp [Body.listed, B.start_out, B.finish_out]
  rw [heq] at hlisted
  exact hlisted.trans (Body.edges_perm B.wires B.start)

theorem placed : Body.Placed p.out p.flows B.body B.start B.finish := by
  have hnodup := B.nodup_body
  simp only [nodup_cons, nodup_append', disjoint_singleton] at hnodup
  exact .of_perm B.wires hnodup.2.1 hnodup.2.2.2 B.flows_perm

/-- An element of the body, or the start or the end, is an element of the process. -/
theorem exists_element {id : String} (h : id ∈ B.start :: (B.body.nodes ++ [B.finish])) :
    ∃ e ∈ p.elements, e.id = id := by
  obtain ⟨e, he, hid⟩ := mem_map.1 (B.ids.mem_iff.2 h)
  exact ⟨e, he, hid⟩

variable {s : String}

theorem mem_nodes_of_mem_gates
    (h : (s, j, bs) ∈ B.body.gates) : s ∈ B.body.nodes ∧ j ∈ B.body.nodes :=
  ⟨Body.mem_nodes_iff.2 (.inr ⟨_, h, .inl rfl⟩),
    Body.mem_nodes_iff.2 (.inr ⟨_, h, .inr rfl⟩)⟩

/-! ### Directions -/

/-- The flows give the split of a block its direction, and the join. -/
theorem directionOf_gate (h : (s, j, bs) ∈ B.body.gates) :
    directionOf (predecessors p.elements s).length (p.out s).length = some .divergent ∧
      directionOf (predecessors p.elements j).length (p.out j).length = some .convergent := by
  obtain ⟨htwo, -⟩ := B.gates s j bs h
  obtain ⟨rest, a, n, hplaced⟩ := B.placed.of_mem_gates h
  obtain ⟨hs, hj, hsout, hjout, -⟩ := hplaced.gate
  have hslength : (predecessors p.elements s).length = 1 := by
    rw [predecessors_eq, length_map, hs.length_eq, length_singleton]
  have hjlength : (predecessors p.elements j).length = bs.length := by
    rw [predecessors_eq, length_map, hj.length_eq, length_map]
  rw [hslength, hjlength, hsout, hjout, length_map, length_singleton]
  constructor
  · rw [directionOf, if_pos ⟨rfl, by omega⟩]
  · rw [directionOf, if_neg (by omega), if_pos ⟨by omega, rfl⟩]

/-- Every gateway of the process opens or closes a block. -/
theorem exists_gate_of_gateway (he : e ∈ p.elements) (htype : e.type = .gateway) :
    ∃ s j bs, (s, j, bs) ∈ B.body.gates ∧ (e.id = s ∨ e.id = j) := by
  have hmem : e.id ∈ B.start :: (B.body.nodes ++ [B.finish]) :=
    B.ids.mem_iff.1 (mem_map_of_mem he)
  have hnot := fun h => B.tasks e he h htype
  simp only [mem_cons, mem_append, not_mem_nil, or_false] at hmem
  rcases hmem with hstart | hbody | hfinish
  · exact absurd (.inl hstart) hnot
  · rcases Body.mem_nodes_iff.1 hbody with hleaf | ⟨⟨s, j, bs⟩, hg, hid⟩
    · exact absurd (.inr (.inr hleaf)) hnot
    · exact ⟨s, j, bs, hg, hid⟩
  · exact absurd (.inr (.inl hfinish)) hnot

/-- The process passes the direction check. -/
theorem tagDirections_eq (hspec : p.GatewaysSpecified) : tagDirections p = .done p.directed := by
  have hmap : ∃ els, p.elements.mapM (tagDirection (getElementIdReferences p)) = .done els := by
    refine Parsed.exists_mapM fun e he => ?_
    by_cases htype : e.type = .gateway
    · obtain ⟨g, hg⟩ := hspec e (mem_append_left _ he) htype
      obtain ⟨s, j, bs, hgate, hid⟩ := B.exists_gate_of_gateway he htype
      obtain ⟨hs, hj⟩ := B.directionOf_gate hgate
      have hdir : ∃ direction, directionOf (predecessors p.elements e.id).length
          e.targetIds.length = some direction := by
        rw [← out_eq B.nodup_elements he]
        rcases hid with hid | hid
        · exact ⟨_, hid ▸ hs⟩
        · exact ⟨_, hid ▸ hj⟩
      obtain ⟨direction, hdir⟩ := hdir
      refine ⟨e.directed direction, tagDirection_eq_done.2 (.inr ⟨g, direction, htype, hg, ?_,
        rfl⟩)⟩
      rw [getD_getElementIdReferences, hdir]
    · exact ⟨e, tagDirection_eq_done.2 (.inl ⟨htype, rfl⟩)⟩
  obtain ⟨els, hels⟩ := hmap
  have hdone : tagDirections p = .done { p with elements := els } := by
    rw [tagDirections, hels]
    rfl
  rw [hdone, eq_directed_of_tagDirections hdone]

/-- An element that is not in a block as its split or its join has no direction. -/
theorem kindAt_of_task {x : Nat} {id : String} (hx : idAt p.directed.allElements x = some id)
    (hid : id = B.start ∨ id = B.finish ∨ id ∈ B.body.leaves) :
    kindAt p.directed.allElements x = none := by
  rw [idAt_directed] at hx
  have hmem : id ∈ B.start :: (B.body.nodes ++ [B.finish]) := by
    rcases hid with rfl | rfl | hleaf
    · simp
    · simp
    · exact mem_cons_of_mem _
        (mem_append_left _ (Body.mem_nodes_iff.2 (.inl hleaf)))
  obtain ⟨e, he, rfl⟩ := B.exists_element hmem
  have hget := getElem?_directed (getElem?_of_idAt B.nodup he hx)
  rw [kindAt, hget, Option.bind_some, kind_directedElement_eq_none (B.tasks e he hid)]

/-- The split and the join of a block have the same type, and their directions. -/
theorem kindAt_of_gate (h : (s, j, bs) ∈ B.body.gates) : ∃ type,
      (∀ x, idAt p.directed.allElements x = some s →
        kindAt p.directed.allElements x = some (type, .divergent)) ∧
      ∀ x, idAt p.directed.allElements x = some j →
        kindAt p.directed.allElements x = some (type, .convergent) := by
  obtain ⟨-, type, hs, hj⟩ := B.gates s j bs h
  obtain ⟨hsdir, hjdir⟩ := B.directionOf_gate h
  -- the same for the split and for the join
  have hkind : ∀ {id : String} {direction : GatewayDirection}, p.gatewayTypeOf id = some type →
      directionOf (predecessors p.elements id).length (p.out id).length = some direction →
      ∀ x, idAt p.directed.allElements x = some id →
        kindAt p.directed.allElements x = some (type, direction) := by
    intro id direction hid hdir x hx
    obtain ⟨e, he, hekind⟩ := Option.bind_eq_some_iff.1 hid
    obtain ⟨hmem, rfl⟩ := elementOf_eq_some he
    rw [idAt_directed] at hx
    rw [out_eq B.nodup_elements hmem] at hdir
    have hget := getElem?_directed (getElem?_of_idAt B.nodup hmem hx)
    unfold Element.kind at hekind
    by_cases htype : e.type = .gateway
    · rw [if_pos htype] at hekind
      cases hg : e.gateway with
      | none => simp [hg] at hekind
      | some g =>
        obtain rfl : g.type = type := by simpa [hg] using hekind
        rw [kindAt, hget, Option.bind_some, kind_directedElement htype hg hdir]
    · simp [htype] at hekind
  exact ⟨type, hkind hs hsdir, hkind hj hjdir⟩

/-! ### The search passes over a body -/

theorem nodup_directed : (p.directed.allElements.map (·.id)).Nodup := by
  rw [map_id_directed]
  exact B.nodup

/-- Every block has a branch. -/
theorem branches_ne_nil {g : String × String × List (Body String)} (h : g ∈ B.body.gates) :
    g.2.2 ≠ [] := by
  obtain ⟨htwo, -⟩ := B.gates g.1 g.2.1 g.2.2 h
  intro hnil
  simp [hnil] at htwo

/-- The search goes on from an element along the flows that lead to it, and finds the same from all
of them. -/
theorem findsOnly_of_flows {gw : Nat} {id a : String} {s s' : Nat}
    (hflows : (p.flows.filter (·.2 = a)).Perm l) (hne : l ≠ [])
    (hentered : ∀ x, idAt p.directed.allElements x = some a → p.directed.entered gw x s = some s')
    (hall : ∀ e ∈ l, FindsOnly p.directed gw id e.1 s') : FindsOnly p.directed gw id a s := by
  refine .of_step B.nodup_directed hentered ?_ fun b hb => ?_
  · obtain ⟨⟨b, c⟩, he⟩ := exists_mem_of_ne_nil l hne
    obtain ⟨hmem, hc⟩ := mem_filter.1 (hflows.mem_iff.2 he)
    obtain rfl : c = a := of_decide_eq_true hc
    exact ⟨b, by rwa [flows_directed]⟩
  · rw [flows_directed, mem_iff_of_filter_perm hflows] at hb
    exact hall _ hb

section Exit

variable {gw : Nat} {g id : String} {type : GatewayType}
  (hgw : idAt p.directed.allElements gw = some g)
  (hkind : kindAt p.directed.allElements gw = some (type, .convergent))

include hgw hkind

omit B hkind in
theorem ne_of_idAt {x : Nat} {a : String} (hx : idAt p.directed.allElements x = some a)
    (hne : g ≠ a) : gw ≠ x := by
  rintro rfl
  exact hne (Option.mem_unique hgw hx)

/-- The search comes to the join of a block with some count, and its split takes back what the join
has added. -/
theorem exists_entered_gate {split join : String}
    (hgate : (split, join, bs) ∈ B.body.gates) (hsplit : g ≠ split) (hjoin : g ≠ join) (s : Nat) :
    ∃ t, (∀ y, idAt p.directed.allElements y = some join → p.directed.entered gw y s = some t) ∧
      ∀ y, idAt p.directed.allElements y = some split → p.directed.entered gw y t = some s := by
  obtain ⟨type', hskind, hjkind⟩ := B.kindAt_of_gate hgate
  by_cases htype : type = type'
  · subst htype
    refine ⟨s + 1, fun y hy => ?_, fun y hy => ?_⟩
    · exact entered_of_join hkind (hjkind y hy) (ne_of_idAt hgw hy hjoin)
    · rw [entered_of_split hkind (hskind y hy) (ne_of_idAt hgw hy hsplit)]
      simp
  · exact ⟨s, fun y hy => entered_of_other_type hkind (hjkind y hy) htype,
      fun y hy => entered_of_other_type hkind (hskind y hy) htype⟩

/-- **The search from a join passes over a body** that the join is not in: what it finds before the
body it finds from the end of it, with the same count. -/
theorem findsOnly_exit {b : Body String} {a n : String} {s : Nat}
    (hplaced : Body.Placed p.out p.flows b a n) (hleaves : b.leaves ⊆ B.body.leaves)
    (hgates : b.gates ⊆ B.body.gates) (hnot : g ∉ b.nodes)
    (h : FindsOnly p.directed gw id a s) : FindsOnly p.directed gw id (b.exit a) s := by
  induction b generalizing a n s with
  | nil => exact h
  | leaf x rest ih =>
    obtain ⟨hx, -, hrest⟩ := hplaced.leaf
    simp only [Body.leaves_leaf, cons_subset] at hleaves
    simp only [Body.nodes_leaf, mem_cons, not_or] at hnot
    have hentered : ∀ y, idAt p.directed.allElements y = some x →
        p.directed.entered gw y s = some s := fun y hy =>
      entered_of_kindAt_eq_none (B.kindAt_of_task hy (.inr (.inr hleaves.1)))
    refine ih hrest hleaves.2 hgates hnot.2 ?_
    exact B.findsOnly_of_flows hx (cons_ne_nil _ _) hentered (forall_mem_singleton.2 h)
  | gate split join bs rest ihbs ih =>
    obtain ⟨hsplit, hjoin, -, -, -, -, hbs, hrest⟩ := hplaced.gate
    simp only [Body.leaves_gate, Body.gates_gate, append_subset, cons_subset]
      at hleaves hgates
    simp only [Body.nodes_gate, mem_cons, mem_append, mem_flatMap, not_or,
      not_exists, not_and] at hnot
    obtain ⟨hgs, hgbs, hgj, hgrest⟩ := hnot
    obtain ⟨t, hin, hout⟩ := B.exists_entered_gate hgw hkind hgates.1 hgs hgj s
    have hatSplit : FindsOnly p.directed gw id split t :=
      B.findsOnly_of_flows hsplit (cons_ne_nil _ _) hout (forall_mem_singleton.2 h)
    have hatExit : ∀ b ∈ bs, FindsOnly p.directed gw id (b.exit split) t := by
      intro b hb
      refine ihbs b hb (hbs b hb) ?_ ?_ (fun hmem => hgbs b hb hmem) hatSplit
      · exact fun x hx => hleaves.1 (mem_flatMap.2 ⟨b, hb, hx⟩)
      · exact fun x hx => hgates.2.1 (mem_flatMap.2 ⟨b, hb, hx⟩)
    refine ih hrest hleaves.2 hgates.2.2 hgrest ?_
    have hne : bs ≠ [] := B.branches_ne_nil hgates.1
    exact B.findsOnly_of_flows hjoin (mt map_eq_nil_iff.1 hne) hin
      (forall_mem_map.2 hatExit)

end Exit

/-- The search from the join of a block ends, and finds the split. -/
theorem findsOnly_gate (h : (s, j, bs) ∈ B.body.gates)
    {gw : Nat} (hgw : idAt p.directed.allElements gw = some j) : FindsOnly p.directed gw s j 0 := by
  obtain ⟨type, hskind, hjkind⟩ := B.kindAt_of_gate h
  obtain ⟨rest, a, n, hplaced⟩ := B.placed.of_mem_gates h
  obtain ⟨-, hjoin, -, -, hne, -, hbs, -⟩ := hplaced.gate
  have hkind := hjkind gw hgw
  have hatSplit : FindsOnly p.directed gw s s 0 := by
    refine .of_stop fun y hy => ?_
    rw [entered_of_split hkind (hskind y hy) (ne_of_idAt hgw hy hne.symm), if_pos rfl]
  have hself : ∀ y, idAt p.directed.allElements y = some j →
      p.directed.entered gw y 0 = some 0 := by
    intro y hy
    obtain rfl : gw = y := eq_of_idAt_eq B.nodup_directed hgw hy
    exact entered_self hkind 0
  have hatExit : ∀ b ∈ bs, FindsOnly p.directed gw s (b.exit s) 0 := by
    intro b hb
    obtain ⟨hleaves, hgates⟩ := Body.subset_of_mem_gates h hb
    exact B.findsOnly_exit hgw hkind (hbs b hb) hleaves hgates (hbs b hb).fresh hatSplit
  have hbsne : bs ≠ [] := B.branches_ne_nil h
  exact B.findsOnly_of_flows hjoin (mt map_eq_nil_iff.1 hbsne) hself
    (forall_mem_map.2 hatExit)

/-! ### The tags -/

/-- **The blocks are tagged**: every split diverges and every join converges, and each names the
other. An element is known by its position. -/
def Tagged (p' : Process) : Prop :=
  ∀ s j bs, (s, j, bs) ∈ B.body.gates → ∀ i k, idAt p.elements i = some s →
    idAt p.elements k = some j →
    (∃ type, kindAt p'.elements i = some (type, .divergent) ∧
      kindAt p'.elements k = some (type, .convergent)) ∧
      recipAt p'.elements i = some j ∧ recipAt p'.elements k = some s

omit B in
theorem idAt_allElements {i : Nat} {id : String} (h : idAt p.elements i = some id) :
    i < p.directed.elements.length ∧ idAt p.directed.allElements i = some id := by
  obtain ⟨e, he, hid⟩ := Option.map_eq_some_iff.1 h
  have hlt := (List.getElem?_eq_some_iff.1 he).1
  refine ⟨by rw [directed, length_map]; exact hlt, ?_⟩
  rw [idAt_directed, idAt, ← p.getElem?_elements hlt, he, Option.map_some, hid]

theorem exists_idAt (h : (s, j, bs) ∈ B.body.gates) :
    ∃ i k, idAt p.elements i = some s ∧ idAt p.elements k = some j := by
  have hpos : ∀ {id}, id ∈ B.body.nodes → ∃ i, idAt p.elements i = some id := by
    intro id hid
    obtain ⟨e, he, rfl⟩ := B.exists_element
      (mem_cons_of_mem _ (mem_append_left _ hid))
    obtain ⟨i, hi⟩ := mem_iff_getElem?.1 he
    exact ⟨i, by rw [idAt, hi, Option.map_some]⟩
  obtain ⟨hs, hj⟩ := B.mem_nodes_of_mem_gates h
  obtain ⟨i, hi⟩ := hpos hs
  obtain ⟨k, hk⟩ := hpos hj
  exact ⟨i, k, hi, hk⟩

/-- A join closes a block. -/
theorem exists_gate_of_isJoin {c : Nat} (hc : p.directed.IsJoin c) :
    ∃ s j bs, (s, j, bs) ∈ B.body.gates ∧ idAt p.directed.allElements c = some j := by
  obtain ⟨hlt, type, hkind⟩ := hc.kindAt_allElements
  have hlt' : c < p.elements.length := by
    rw [directed, length_map] at hlt
    exact hlt
  have hget : p.elements[c]? = some p.elements[c] := List.getElem?_eq_getElem hlt'
  have hid : idAt p.directed.allElements c = some p.elements[c].id := by
    rw [idAt_directed, idAt, ← p.getElem?_elements hlt', hget, Option.map_some]
  have htype : p.elements[c].type = .gateway := by
    by_contra hne
    rw [kindAt, getElem?_directed hget, Option.bind_some,
      kind_directedElement_eq_none hne] at hkind
    cases hkind
  obtain ⟨s, j, bs, hgate, heq | heq⟩ :=
    B.exists_gate_of_gateway (mem_of_getElem? hget) htype
  · obtain ⟨type', hskind, -⟩ := B.kindAt_of_gate hgate
    rw [hskind c (heq ▸ hid)] at hkind
    exact absurd hkind (by simp)
  · exact ⟨s, j, bs, hgate, heq ▸ hid⟩

/-- The split of a block opens its join, if it has an id of its own. -/
theorem openedBy_of_gate (h : (s, j, bs) ∈ B.body.gates)
    (hne : s ≠ nullId) {i k : Nat} (hi : idAt p.directed.allElements i = some s)
    (hk : idAt p.directed.allElements k = some j) : p.directed.OpenedBy k i := by
  refine ⟨s, hne, (B.findsOnly_gate h hk k hk).2, ?_⟩
  rwa [pointer_eq_some_iff B.nodup_directed]

/-- All searches end. -/
theorem exists_recurseRecip_joins (hspec : p.directed.GatewaysSpecified) :
    ∃ fuel, ∀ c, p.directed.IsJoin c → ∃ r, recurseRecip p.directed.allElements
      (getElementIdReferences p.directed) (indexPointers p.directed) c fuel c 0 [] =
        .done r := by
  obtain ⟨fuel, hfuel⟩ := exists_fuel
    (P := fun fuel c => p.directed.IsJoin c → ∃ r, recurseRecip p.directed.allElements
      (getElementIdReferences p.directed) (indexPointers p.directed) c fuel c 0 [] =
        .done r)
    (fun m n c hle hm hc => (hm hc).imp fun r hr => recurseRecip_mono hle hr)
    (fun c (_ : c ∈ List.range p.directed.elements.length) => by
      by_cases hc : p.directed.IsJoin c
      · obtain ⟨s, j, bs, hgate, hid⟩ := B.exists_gate_of_isJoin hc
        obtain ⟨hlt, type, hkind⟩ := hc.kindAt_allElements
        have hlt' : c < p.directed.allElements.length := by
          rw [allElements, length_append]
          omega
        have hacc := (B.findsOnly_gate hgate hid c hid).1
        obtain ⟨fuel, hfuel⟩ := exists_recurseRecip hspec hkind hacc hlt'
        exact ⟨fuel, fun _ => hfuel []⟩
      · exact ⟨0, fun hjoin => absurd hjoin hc⟩)
  exact ⟨fuel, fun c hc => hfuel c (mem_range.2 hc.kindAt_allElements.1) hc⟩

/-- The second loop pairs the blocks. -/
theorem tagged_of_tagJoins (hspec : p.directed.GatewaysSpecified)
    (hne : ∀ s j bs, (s, j, bs) ∈ B.body.gates → s ≠ nullId)
    (h : tagJoins fuel p.directed = .done p') : B.Tagged p' := by
  obtain ⟨htagged, hlength⟩ := tagJoins_spec hspec h
  intro s j bs hgate i k hi hk
  obtain ⟨hilt, hi⟩ := idAt_allElements hi
  obtain ⟨hklt, hk⟩ := idAt_allElements hk
  obtain ⟨type, hskind, hjkind⟩ := B.kindAt_of_gate hgate
  have hopen := B.openedBy_of_gate hgate (hne s j bs hgate) hi hk
  have hkjoin : p.directed.IsJoin k := (isJoin_iff hklt).2 ⟨type, hjkind k hk⟩
  refine ⟨⟨type, ?_, ?_⟩, ?_, ?_⟩
  · rw [kindAt_tagged htagged hlength hilt, hskind i hi]
  · rw [kindAt_tagged htagged hlength hklt, hjkind k hk]
  · -- the split has a join that it opens, and it opens one only
    obtain ⟨c, -, hcjoin, hcopen, hrecip⟩ := htagged.opens i k hklt hkjoin hopen
    obtain ⟨s', j', bs', hgate', hc⟩ := B.exists_gate_of_isJoin hcjoin
    obtain ⟨i', k', hi', -⟩ := B.exists_idAt hgate'
    obtain ⟨-, hi'⟩ := idAt_allElements hi'
    obtain rfl : i = i' :=
      hcopen.unique (B.openedBy_of_gate hgate' (hne s' j' bs' hgate') hi' hc)
    obtain rfl : s = s' := Option.mem_unique hi hi'
    have heq := inj_on_of_nodup_map (B.body.splits_sublist.nodup B.placed.nodup) hgate hgate' rfl
    obtain rfl : j = j' := congrArg (·.2.1) heq
    rw [recipAt_tagged hlength hilt, hrecip, hc]
  · rw [recipAt_tagged hlength hklt, htagged.opened k hklt hkjoin i hopen, hi]

end BlockStructured

/-- A split that has been tagged has an id of its own. -/
theorem BlockStructured.ne_nullId_of_tagged {p : Process} (B : BlockStructured p)
    (hparsed : p.AsParsed) (htag : tagGateways fuel p = .done p')
    (htagged : B.Tagged p') {s : String} (hgate : (s, j, bs) ∈ B.body.gates) : s ≠ nullId := by
  rintro rfl
  have hspec := gatewaysSpecified_of_tagDirections (B.tagDirections_eq hparsed.specified)
    hparsed.specified
  obtain ⟨-, hjoins⟩ := tagGateways_eq_done htag
  obtain ⟨hspecs, hlength⟩ := tagJoins_spec hspec hjoins
  obtain ⟨i, k, hi, hk⟩ := B.exists_idAt hgate
  obtain ⟨⟨type, -, hkind⟩, -, hrecip⟩ := htagged nullId j bs hgate i k hi hk
  obtain ⟨hklt, hk⟩ := idAt_allElements hk
  have hkjoin : p.directed.IsJoin k := (isJoin_tagged hspecs hlength).1 ⟨type, hkind⟩
  -- the search from the join finds what it takes for nothing
  have hnot : ∀ d, ¬p.directed.OpenedBy k d := by
    rintro d ⟨id, hne, hall, -⟩
    exact hne ((hall nullId).1 (((B.findsOnly_gate hgate hk k hk).2 nullId).2 rfl)).symm
  rw [recipAt_tagged hlength hklt, hspecs.unopened k hkjoin (.inr hnot)] at hrecip
  exact absurd (unpaired_directed hparsed k _ hrecip) (by decide)

/-- **The tagger tags every block of a block-structured process**, unless a split has the id by
which the search says that it has found none. -/
theorem tagGateways_blocks_iff (p : Process) (B : BlockStructured p) (hparsed : p.AsParsed) :
    (∃ fuel p', tagGateways fuel p = .done p' ∧ B.Tagged p') ↔
      ∀ s j bs, (s, j, bs) ∈ B.body.gates → s ≠ nullId := by
  constructor
  · rintro ⟨fuel, p', htag, htagged⟩ s j bs hgate
    exact B.ne_nullId_of_tagged hparsed htag htagged hgate
  · intro hne
    have hdir := B.tagDirections_eq hparsed.specified
    have hspec := gatewaysSpecified_of_tagDirections hdir hparsed.specified
    obtain ⟨fuel, hends⟩ := B.exists_recurseRecip_joins hspec
    obtain ⟨p', hjoins⟩ := exists_tagJoins hspec hends
    refine ⟨fuel, p', ?_, B.tagged_of_tagJoins hspec hne hjoins⟩
    rw [tagGateways, hdir, Parsed.done_bind, hjoins]

/-- The choice between two tasks is a block. -/
def diamondBlocks : BlockStructured diamond where
  start := "start"
  finish := "end"
  body := .gate "fork" "join" [.leaf "a" .nil, .leaf "b" .nil] .nil
  ids := List.Perm.refl _
  nodup := by decide
  start_out := rfl
  wires := .gate rfl (List.forall_mem_cons.2 ⟨.leaf rfl .nil, List.forall_mem_cons.2
    ⟨.leaf rfl .nil, List.forall_mem_nil _⟩⟩) rfl .nil
  finish_out := rfl
  tasks := by decide
  gates := by
    intro s j bs h
    cases List.mem_singleton.1 h
    exact ⟨by decide, .exclusive, rfl, rfl⟩

theorem tagGateways_blocks_iff_diamond :
    (∃ fuel p', tagGateways fuel diamond = .done p' ∧ diamondBlocks.Tagged p') ↔
      ∀ s j bs, (s, j, bs) ∈ diamondBlocks.body.gates → s ≠ nullId :=
  tagGateways_blocks_iff diamond diamondBlocks (asParsed_of_all rfl)

/-- The choice between two tasks, opened by a gateway with the reserved id. -/
def nullFork : Process :=
  { id := "choice"
    elements := [startTo "start" nullId, gatewayTo .exclusive nullId ["a", "b"], taskTo "a" "join",
      taskTo "b" "join", gatewayTo .exclusive "join" ["end"], endAt "end"] }

def nullForkBlocks : BlockStructured nullFork where
  start := "start"
  finish := "end"
  body := .gate nullId "join" [.leaf "a" .nil, .leaf "b" .nil] .nil
  ids := List.Perm.refl _
  nodup := by decide
  start_out := rfl
  wires := .gate rfl (List.forall_mem_cons.2 ⟨.leaf rfl .nil, List.forall_mem_cons.2
    ⟨.leaf rfl .nil, List.forall_mem_nil _⟩⟩) rfl .nil
  finish_out := rfl
  tasks := by decide
  gates := by
    intro s j bs h
    cases List.mem_singleton.1 h
    exact ⟨by decide, .exclusive, rfl, rfl⟩

/-- The tagger succeeds, and leaves the join without its split. -/
theorem nullFork_not_tagged :
    (∃ p', tagGateways 8 nullFork = .done p' ∧ recipAt p'.elements 4 = some "") ∧
      ¬∃ fuel p', tagGateways fuel nullFork = .done p' ∧ nullForkBlocks.Tagged p' := by
  refine ⟨⟨_, rfl, rfl⟩, ?_⟩
  rintro ⟨fuel, p', htag, htagged⟩
  have hgate : (nullId, "join", [.leaf "a" .nil, .leaf "b" .nil]) ∈ nullForkBlocks.body.gates :=
    List.mem_cons_self
  exact nullForkBlocks.ne_nullId_of_tagged (asParsed_of_all rfl) htag htagged hgate rfl

end SharWorkflow
