import Mathlib.Data.List.Nodup
import Mathlib.Data.List.Perm.Basic
import Mathlib.Data.List.Lattice
import Mathlib.Logic.Relation
import Mathlib.Tactic.SimpRw

/-!
# Properly nested blocks

A **body** is a sequence of single nodes and of blocks: a block opens with a split, runs through
branches that are bodies again, and closes with a join. Between the node before it and the node
after it a body has a graph (`Body.edges`), and a function that lists the successors of each node
may **wire** the body (`Body.Wires`).

* `edges_perm`: the successors of the nodes of a wired body are its edges.
* `Placed`: a body whose nodes have no other edges into them within a larger graph; what leads to
  each of its nodes is then known (`Placed.leaf`, `Placed.gate`), also for a block that is nested
  deeply in it (`Placed.of_mem_gates`).
* `Wires.between_iff`: the nodes between a split and its join are those of the branches.
-/

namespace Graph

open Relation List

/-- A sequence of nodes and of properly nested blocks. -/
inductive Body (α : Type*) where
  | nil
  | leaf (x : α) (rest : Body α)
  | gate (split join : α) (branches : List (Body α)) (rest : Body α)

namespace Body

variable {α : Type*}

/-- Induction over a body: a block comes with the hypothesis for each of its branches. -/
@[induction_eliminator]
theorem induct {motive : Body α → Prop} (nil : motive nil)
    (leaf : ∀ x rest, motive rest → motive (leaf x rest))
    (gate : ∀ split join branches rest, (∀ b ∈ branches, motive b) → motive rest →
      motive (gate split join branches rest)) (b : Body α) : motive b := by
  refine @Body.rec α motive (fun bs => ∀ b ∈ bs, motive b) nil leaf gate (by simp) ?_ b
  intro b bs hb hbs c hc
  rcases mem_cons.1 hc with rfl | hc
  · exact hb
  · exact hbs c hc

/-! ### Nodes, edges and blocks -/

mutual

/-- The nodes in the order in which they are written, a split before its branches and a join after
them. -/
def nodes : Body α → List α
  | nil => []
  | leaf x rest => x :: nodes rest
  | gate s j bs rest => s :: (branchNodes bs ++ j :: nodes rest)

/-- The nodes of the branches of a block. -/
def branchNodes : List (Body α) → List α
  | [] => []
  | b :: bs => nodes b ++ branchNodes bs

end

/-- The first node, or the one after an empty body. -/
def entry : Body α → α → α
  | nil, n => n
  | leaf x _, _ => x
  | gate s _ _ _, _ => s

/-- The last node, or the one before an empty body. -/
def exit : Body α → α → α
  | nil, a => a
  | leaf x rest, _ => exit rest x
  | gate _ j _ rest, _ => exit rest j

mutual

/-- The edges of a body between the node `a` before it and the node `n` after it. -/
def edges : Body α → α → α → List (α × α)
  | nil, a, n => [(a, n)]
  | leaf x rest, a, n => (a, x) :: edges rest x n
  | gate s j bs rest, a, n => (a, s) :: (branchEdges bs s j ++ edges rest j n)

/-- The edges of the branches of a block. -/
def branchEdges : List (Body α) → α → α → List (α × α)
  | [], _, _ => []
  | b :: bs, s, j => edges b s j ++ branchEdges bs s j

end

mutual

/-- The blocks of a body at any depth, each as its split, its join and its branches. -/
def gates : Body α → List (α × α × List (Body α))
  | nil => []
  | leaf _ rest => gates rest
  | gate s j bs rest => (s, j, bs) :: (branchGates bs ++ gates rest)

/-- The blocks within the branches of a block. -/
def branchGates : List (Body α) → List (α × α × List (Body α))
  | [] => []
  | b :: bs => gates b ++ branchGates bs

end

mutual

/-- The single nodes of a body at any depth. -/
def leaves : Body α → List α
  | nil => []
  | leaf x rest => x :: leaves rest
  | gate _ _ bs rest => branchLeaves bs ++ leaves rest

/-- The single nodes within the branches of a block. -/
def branchLeaves : List (Body α) → List α
  | [] => []
  | b :: bs => leaves b ++ branchLeaves bs

end

theorem branchNodes_eq (bs : List (Body α)) : branchNodes bs = bs.flatMap nodes := by
  induction bs with
  | nil => rfl
  | cons b bs ih => rw [branchNodes, ih, flatMap_cons]

section

variable (bs : List (Body α)) (rest : Body α)

theorem branchEdges_eq (s j : α) :
    branchEdges bs s j = bs.flatMap fun b => b.edges s j := by
  induction bs with
  | nil => rfl
  | cons b bs ih => rw [branchEdges, ih, flatMap_cons]

theorem branchGates_eq : branchGates bs = bs.flatMap gates := by
  induction bs with
  | nil => rfl
  | cons b bs ih => rw [branchGates, ih, flatMap_cons]

theorem branchLeaves_eq : branchLeaves bs = bs.flatMap leaves := by
  induction bs with
  | nil => rfl
  | cons b bs ih => rw [branchLeaves, ih, flatMap_cons]

@[simp]
theorem nodes_nil : (nil : Body α).nodes = [] := rfl

@[simp]
theorem nodes_leaf (x : α) : (leaf x rest).nodes = x :: rest.nodes := rfl

@[simp]
theorem nodes_gate (s j : α) :
    (gate s j bs rest).nodes = s :: (bs.flatMap nodes ++ j :: rest.nodes) := by
  rw [nodes, branchNodes_eq]

@[simp]
theorem edges_nil (a n : α) : (nil : Body α).edges a n = [(a, n)] := rfl

@[simp]
theorem edges_leaf (x : α) (a n : α) :
    (leaf x rest).edges a n = (a, x) :: rest.edges x n := rfl

@[simp]
theorem edges_gate (s j : α) (a n : α) :
    (gate s j bs rest).edges a n =
      (a, s) :: ((bs.flatMap fun b => b.edges s j) ++ rest.edges j n) := by
  rw [edges, branchEdges_eq]

@[simp]
theorem gates_gate (s j : α) :
    (gate s j bs rest).gates = (s, j, bs) :: (bs.flatMap gates ++ rest.gates) := by
  rw [gates, branchGates_eq]

@[simp]
theorem gates_leaf (x : α) : (leaf x rest).gates = rest.gates := rfl

@[simp]
theorem leaves_leaf (x : α) : (leaf x rest).leaves = x :: rest.leaves := rfl

@[simp]
theorem leaves_gate (s j : α) :
    (gate s j bs rest).leaves = bs.flatMap leaves ++ rest.leaves := by
  rw [leaves, branchLeaves_eq]

end

variable {b : Body α} {bs : List (Body α)}

/-- A node stands alone, or it opens or closes a block. -/
theorem mem_nodes_iff {x : α} :
    x ∈ b.nodes ↔ x ∈ b.leaves ∨ ∃ g ∈ b.gates, x = g.1 ∨ x = g.2.1 := by
  induction b with
  | nil => simp [leaves, gates]
  | leaf y rest ih => simp [ih, or_assoc]
  | gate s j bs rest ihbs ih =>
    have hbranches : x ∈ bs.flatMap nodes ↔
        x ∈ bs.flatMap leaves ∨ ∃ g ∈ bs.flatMap gates, x = g.1 ∨ x = g.2.1 := by
      simp only [mem_flatMap]
      constructor
      · rintro ⟨b, hb, hx⟩
        rcases (ihbs b hb).1 hx with hx | ⟨g, hg, hx⟩
        · exact .inl ⟨b, hb, hx⟩
        · exact .inr ⟨g, ⟨b, hb, hg⟩, hx⟩
      · rintro (⟨b, hb, hx⟩ | ⟨g, ⟨b, hb, hg⟩, hx⟩)
        · exact ⟨b, hb, (ihbs b hb).2 (.inl hx)⟩
        · exact ⟨b, hb, (ihbs b hb).2 (.inr ⟨g, hg, hx⟩)⟩
    rw [nodes_gate, mem_cons, mem_append, mem_cons, hbranches, ih, leaves_gate,
      gates_gate]
    constructor
    · rintro (rfl | (hx | ⟨g, hg, hx⟩) | rfl | hx | ⟨g, hg, hx⟩)
      · exact .inr ⟨_, mem_cons_self, .inl rfl⟩
      · exact .inl (mem_append_left _ hx)
      · exact .inr ⟨g, mem_cons_of_mem _ (mem_append_left _ hg), hx⟩
      · exact .inr ⟨_, mem_cons_self, .inr rfl⟩
      · exact .inl (mem_append_right _ hx)
      · exact .inr ⟨g, mem_cons_of_mem _ (mem_append_right _ hg), hx⟩
    · rintro (hx | ⟨g, hg, hx⟩)
      · rcases mem_append.1 hx with hx | hx
        · exact .inr (.inl (.inl hx))
        · exact .inr (.inr (.inr (.inl hx)))
      · rcases mem_cons.1 hg with rfl | hg
        · exact hx.imp id fun heq => .inr (.inl heq)
        · rcases mem_append.1 hg with hg | hg
          · exact .inr (.inl (.inr ⟨g, hg, hx⟩))
          · exact .inr (.inr (.inr (.inr ⟨g, hg, hx⟩)))

theorem exists_mem_nodes_gate {K : α → Prop} {s j : α} {rest : Body α} :
    (∃ x ∈ (gate s j bs rest).nodes, K x) ↔
      K s ∨ (∃ b ∈ bs, ∃ x ∈ b.nodes, K x) ∨ K j ∨ ∃ x ∈ rest.nodes, K x := by
  have hbranches : (∃ x ∈ bs.flatMap nodes, K x) ↔ ∃ b ∈ bs, ∃ x ∈ b.nodes, K x := by
    simp only [mem_flatMap]
    constructor
    · rintro ⟨x, ⟨b, hb, hx⟩, hK⟩
      exact ⟨b, hb, x, hx, hK⟩
    · rintro ⟨b, hb, x, hx, hK⟩
      exact ⟨x, ⟨b, hb, hx⟩, hK⟩
  have happend : (∃ x ∈ bs.flatMap nodes ++ j :: rest.nodes, K x) ↔
      (∃ x ∈ bs.flatMap nodes, K x) ∨ ∃ x ∈ j :: rest.nodes, K x := by
    simp only [mem_append, or_and_right, exists_or]
  rw [nodes_gate, exists_mem_cons_iff, happend, hbranches, exists_mem_cons_iff]

/-- The single nodes and the blocks within a branch of a block are those of the body. -/
theorem subset_of_mem_gates {g : α × α × List (Body α)} (hg : g ∈ b.gates)
    {c : Body α} (hc : c ∈ g.2.2) : c.leaves ⊆ b.leaves ∧ c.gates ⊆ b.gates := by
  induction b with
  | nil => simp [gates] at hg
  | leaf x rest ih =>
    obtain ⟨hleaves, hgates⟩ := ih hg
    exact ⟨fun y hy => mem_cons_of_mem _ (hleaves hy), hgates⟩
  | gate s j bs rest ihbs ih =>
    rw [leaves_gate, gates_gate]
    rw [gates_gate, mem_cons, mem_append, mem_flatMap] at hg
    rcases hg with rfl | ⟨b, hb, hg⟩ | hg
    · exact ⟨fun y hy => mem_append_left _ (mem_flatMap.2 ⟨c, hc, hy⟩), fun y hy =>
        mem_cons_of_mem _ (mem_append_left _ (mem_flatMap.2 ⟨c, hc, hy⟩))⟩
    · obtain ⟨hleaves, hgates⟩ := ihbs b hb hg
      exact ⟨fun y hy => mem_append_left _ (mem_flatMap.2 ⟨b, hb, hleaves hy⟩),
        fun y hy => mem_cons_of_mem _
          (mem_append_left _ (mem_flatMap.2 ⟨b, hb, hgates hy⟩))⟩
    · obtain ⟨hleaves, hgates⟩ := ih hg
      exact ⟨fun y hy => mem_append_right _ (hleaves hy),
        fun y hy => mem_cons_of_mem _ (mem_append_right _ (hgates hy))⟩

/-- A block is known by its split. -/
theorem splits_sublist (b : Body α) : List.Sublist (b.gates.map (·.1)) b.nodes := by
  induction b with
  | nil => exact List.Sublist.refl _
  | leaf x rest ih => exact ih.cons x
  | gate s j bs rest ihbs ih =>
    rw [gates_gate, nodes_gate, map_cons, map_append]
    refine List.Sublist.cons_cons s (List.Sublist.append ?_ (ih.cons j))
    rw [map_flatMap]
    clear ih
    induction bs with
    | nil => exact List.Sublist.refl _
    | cons b bs ihlist =>
      rw [flatMap_cons, flatMap_cons]
      exact (ihbs b mem_cons_self).append
        (ihlist fun c hc => ihbs c (mem_cons_of_mem _ hc))

theorem entry_mem (b : Body α) (n : α) : b.entry n ∈ b.nodes ∨ b = nil := by
  cases b <;> simp [entry]

theorem nodes_sublist_branches (hb : b ∈ bs) : List.Sublist b.nodes (bs.flatMap nodes) := by
  obtain ⟨before, after, rfl⟩ := append_of_mem hb
  rw [flatMap_append, flatMap_cons]
  exact (sublist_append_left _ _).trans (sublist_append_right _ _)

/-- An edge of a body leads to one of its nodes or to the node after it. -/
theorem target_of_mem_edges {a n : α} {e : α × α} (h : e ∈ b.edges a n) :
    e.2 ∈ b.nodes ∨ e.2 = n := by
  induction b generalizing a n with
  | nil =>
    obtain rfl : e = (a, n) := by simpa using h
    exact .inr rfl
  | leaf x rest ih =>
    rcases mem_cons.1 h with rfl | h
    · simp
    · rcases ih h with hmem | rfl
      · exact .inl (mem_cons_of_mem _ hmem)
      · exact .inr rfl
  | gate s j bs rest ihbs ih =>
    simp only [edges_gate, mem_cons, mem_append, mem_flatMap] at h
    rcases h with rfl | ⟨b, hb, h⟩ | h
    · simp
    · rcases ihbs b hb h with hmem | heq
      · exact .inl (by simp only [nodes_gate, mem_cons, mem_append, mem_flatMap]
                       exact .inr (.inl ⟨b, hb, hmem⟩))
      · exact .inl (by simp [heq])
    · rcases ih h with hmem | rfl
      · exact .inl (by simp [hmem])
      · exact .inr rfl

/-- Every edge leads forward in the order of the nodes. -/
theorem sublist_of_mem_edges {a n : α} {e : α × α} (h : e ∈ b.edges a n) :
    List.Sublist [e.1, e.2] (a :: (b.nodes ++ [n])) := by
  induction b generalizing a n with
  | nil =>
    obtain rfl : e = (a, n) := by simpa using h
    exact List.Sublist.refl _
  | leaf x rest ih =>
    rcases mem_cons.1 h with rfl | h
    · simp
    · exact (ih h).cons a
  | gate s j bs rest ihbs ih =>
    simp only [edges_gate, mem_cons, mem_append, mem_flatMap] at h
    simp only [nodes_gate, cons_append, append_assoc]
    rcases h with rfl | ⟨b, hb, h⟩ | h
    · simp
    · have hspread : List.Sublist (s :: (b.nodes ++ [j]))
          (s :: (bs.flatMap nodes ++ j :: (rest.nodes ++ [n]))) :=
        ((nodes_sublist_branches hb).append (by simp)).cons_cons s
      exact ((ihbs b hb h).trans hspread).cons a
    · exact (((ih h).trans (sublist_append_right _ _)).cons s).cons a

theorem filter_edges_eq_nil [DecidableEq α] {a n t : α} (hmem : t ∉ b.nodes)
    (hne : t ≠ n) : (b.edges a n).filter (·.2 = t) = [] := by
  rw [filter_eq_nil_iff]
  intro e he
  simp only [decide_eq_true_eq]
  rintro rfl
  exact (target_of_mem_edges he).elim hmem hne

/-- An edge within the branches of a block leads to a node of them or to the join. -/
theorem filter_branches_eq_nil [DecidableEq α] {s j t : α}
    (hmem : t ∉ bs.flatMap nodes) (hne : t ≠ j) :
    (bs.flatMap fun b => b.edges s j).filter (·.2 = t) = [] := by
  rw [filter_flatMap, flatMap_eq_nil_iff]
  intro b hb
  exact filter_edges_eq_nil (fun ht => hmem (mem_flatMap.2 ⟨b, hb, ht⟩)) hne

/-- A single edge leads out of a body. -/
theorem filter_edges_exit [DecidableEq α] {a n : α} (hn : n ∉ b.nodes) :
    (b.edges a n).filter (·.2 = n) = [(b.exit a, n)] := by
  induction b generalizing a with
  | nil => simp [exit]
  | leaf x rest ih =>
    simp only [nodes_leaf, mem_cons, not_or] at hn
    rw [edges_leaf, filter_cons_of_neg (by simpa using Ne.symm hn.1), ih hn.2, exit]
  | gate s j bs rest ihbs ih =>
    simp only [nodes_gate, mem_cons, mem_append, not_or] at hn
    obtain ⟨hs, hbs, hj, hrest⟩ := hn
    rw [edges_gate, filter_cons_of_neg (by simpa using Ne.symm hs), filter_append,
      filter_branches_eq_nil hbs hj, nil_append, ih hrest, exit]

/-- One edge leads from each branch of a block to the join. -/
theorem filter_branches_exit [DecidableEq α] {s j : α} (hj : j ∉ bs.flatMap nodes) :
    (bs.flatMap fun b => b.edges s j).filter (·.2 = j) = bs.map fun b => (b.exit s, j) := by
  have hexit : (bs.flatMap fun b => (b.edges s j).filter (·.2 = j)) =
      bs.flatMap fun b => [(b.exit s, j)] :=
    flatMap_congr fun b hb =>
      filter_edges_exit fun hmem => hj (mem_flatMap.2 ⟨b, hb, hmem⟩)
  rw [filter_flatMap, hexit, ← flatMap_pure_eq_map]
  rfl

/-- The edges to a node of a branch are those of the branch. -/
theorem filter_branches_of_mem [DecidableEq α] {s j t : α}
    (hnodup : (bs.flatMap nodes).Nodup) (hb : b ∈ bs) (ht : t ∈ b.nodes) (hne : t ≠ j) :
    (bs.flatMap fun b => b.edges s j).filter (·.2 = t) = (b.edges s j).filter (·.2 = t) := by
  -- the other branches have other nodes
  obtain ⟨before, after, rfl⟩ := append_of_mem hb
  simp only [flatMap_append, flatMap_cons, nodup_append'] at hnodup
  obtain ⟨-, ⟨-, -, hafter⟩, hbefore⟩ := hnodup
  have htbefore : t ∉ before.flatMap nodes := fun hmem =>
    hbefore hmem (mem_append_left _ ht)
  simp only [flatMap_append, flatMap_cons, filter_append,
    filter_branches_eq_nil htbefore hne, filter_branches_eq_nil (hafter ht) hne, nil_append,
    append_nil]

/-! ### Wiring -/

/-- The function `out` lists the successors of each node of the body as its edges have them, those
of a split in the order of the branches. -/
inductive Wires (out : α → List α) : Body α → α → Prop
  | nil {n : α} : Wires out nil n
  | leaf {x : α} {rest : Body α} {n : α} (hx : out x = [rest.entry n]) (hrest : Wires out rest n) :
      Wires out (leaf x rest) n
  | gate {s j : α} {bs : List (Body α)} {rest : Body α} {n : α}
      (hs : out s = bs.map (·.entry j)) (hbs : ∀ b ∈ bs, Wires out b j)
      (hj : out j = [rest.entry n]) (hrest : Wires out rest n) : Wires out (gate s j bs rest) n

/-- The edges that a function lists for some nodes. -/
def listed (out : α → List α) (xs : List α) : List (α × α) :=
  xs.flatMap fun x => (out x).map (Prod.mk x)

theorem mem_listed {out : α → List α} {xs : List α} {e : α × α} :
    e ∈ listed out xs ↔ e.1 ∈ xs ∧ e.2 ∈ out e.1 := by
  simp only [listed, mem_flatMap, mem_map]
  constructor
  · rintro ⟨x, hx, y, hy, rfl⟩
    exact ⟨hx, hy⟩
  · rintro ⟨hx, hy⟩
    exact ⟨e.1, hx, e.2, hy, rfl⟩

/-- **The successors that a wired body lists are its edges**, but for the one that leads to it. -/
theorem edges_perm {out : α → List α} {n : α} (hwires : b.Wires out n) (a : α) :
    List.Perm ((a, b.entry n) :: listed out b.nodes) (b.edges a n) := by
  induction hwires generalizing a with
  | nil => exact List.Perm.refl _
  | @leaf x rest n hx hrest ih =>
    have hlisted : listed out (leaf x rest).nodes = (x, rest.entry n) :: listed out rest.nodes := by
      simp [listed, hx]
    rw [hlisted, edges_leaf]
    exact (ih x).cons _
  | @gate s j bs rest n hs hbs hj hrest ihbs ih =>
    have hlisted : listed out (gate s j bs rest).nodes =
        (bs.map fun b => (s, b.entry j)) ++ ((bs.flatMap fun b => listed out b.nodes) ++
          ((j, rest.entry n) :: listed out rest.nodes)) := by
      simp [listed, hs, hj, flatMap_assoc, Function.comp_def]
    have hbranches : List.Perm
        ((bs.map fun b => (s, b.entry j)) ++ (bs.flatMap fun b => listed out b.nodes))
        (bs.flatMap fun b => b.edges s j) := by
      have hcons : List.Perm
          ((bs.map fun b => (s, b.entry j)) ++ (bs.flatMap fun b => listed out b.nodes))
          (bs.flatMap fun b => (s, b.entry j) :: listed out b.nodes) := by
        rw [← flatMap_pure_eq_map]
        exact flatMap_append_perm bs _ _
      exact hcons.trans (List.Perm.flatMap_left bs fun b hb => ihbs b hb s)
    rw [hlisted, edges_gate, ← append_assoc]
    exact (hbranches.append (ih j)).cons _

/-! ### A body within a graph -/

section Placed

variable [DecidableEq α]

/-- A wired body between `a` and `n` in the graph with the edges `E`: no other edge of the graph
leads to one of its nodes. -/
structure Placed (out : α → List α) (E : List (α × α)) (b : Body α) (a n : α) : Prop where
  wires : b.Wires out n
  nodup : b.nodes.Nodup
  fresh : n ∉ b.nodes
  host : ∀ t ∈ b.nodes, (E.filter (·.2 = t)).Perm ((b.edges a n).filter (·.2 = t))

variable {out : α → List α} {E : List (α × α)} {b rest : Body α} {a n x s j : α}
  {bs : List (Body α)}

/-- A body is placed in its own graph. -/
theorem Placed.of_perm (hwires : b.Wires out n) (hnodup : b.nodes.Nodup) (hfresh : n ∉ b.nodes)
    (hE : E.Perm (b.edges a n)) : Placed out E b a n :=
  ⟨hwires, hnodup, hfresh, fun _ _ => hE.filter _⟩

/-- What leads to a node, and the body after it. -/
theorem Placed.leaf (h : Placed out E (leaf x rest) a n) :
    (E.filter (·.2 = x)).Perm [(a, x)] ∧ out x = [rest.entry n] ∧ Placed out E rest x n := by
  obtain ⟨hwires, hnodup, hfresh, hhost⟩ := h
  cases hwires with
  | leaf hx hrest =>
    simp only [nodes_leaf, nodup_cons, mem_cons, not_or] at hnodup hfresh hhost
    refine ⟨?_, hx, hrest, hnodup.2, hfresh.2, fun t ht => ?_⟩
    · have hfilter := hhost x (.inl rfl)
      rwa [edges_leaf, filter_cons_of_pos (by simp),
        filter_edges_eq_nil hnodup.1 (Ne.symm hfresh.1)] at hfilter
    · have hne : x ≠ t := fun heq => hnodup.1 (heq ▸ ht)
      have hfilter := hhost t (.inr ht)
      rwa [edges_leaf, filter_cons_of_neg (by simpa using hne)] at hfilter

/-- What leads to the split and to the join of a block, its branches, and the body after it. -/
theorem Placed.gate (h : Placed out E (gate s j bs rest) a n) : (E.filter (·.2 = s)).Perm [(a, s)] ∧
      (E.filter (·.2 = j)).Perm (bs.map fun b => (b.exit s, j)) ∧
      out s = bs.map (·.entry j) ∧ out j = [rest.entry n] ∧ s ≠ j ∧
      (∀ b ∈ bs, s ∉ b.nodes) ∧ (∀ b ∈ bs, Placed out E b s j) ∧ Placed out E rest j n := by
  obtain ⟨hwires, hnodup, hfresh, hhost⟩ := h
  cases hwires with
  | gate hs hbs hj hrest =>
    simp only [nodes_gate, edges_gate, nodup_cons, nodup_append', mem_cons,
      mem_append, not_or] at hnodup hfresh hhost
    obtain ⟨⟨hsbs, hsj, hsrest⟩, hnbs, ⟨hjrest, hnrest⟩, hdisj⟩ := hnodup
    obtain ⟨hns, hnbs', hnj, hnrest'⟩ := hfresh
    have hjbs : j ∉ bs.flatMap nodes := fun hmem => hdisj hmem mem_cons_self
    refine ⟨?_, ?_, hs, hj, hsj, fun b hb hmem => hsbs (mem_flatMap.2 ⟨b, hb, hmem⟩), ?_, ?_⟩
    · have hfilter := hhost s (.inl rfl)
      rwa [filter_cons_of_pos (by simp), filter_append, filter_branches_eq_nil hsbs hsj,
        filter_edges_eq_nil hsrest (Ne.symm hns)] at hfilter
    · have hfilter := hhost j (.inr (.inr (.inl rfl)))
      rwa [filter_cons_of_neg (by simpa using hsj), filter_append,
        filter_edges_eq_nil hjrest (Ne.symm hnj), append_nil, filter_branches_exit hjbs]
        at hfilter
    · intro b hb
      have hjb : j ∉ b.nodes := fun hmem => hjbs (mem_flatMap.2 ⟨b, hb, hmem⟩)
      refine ⟨hbs b hb, (nodes_sublist_branches hb).nodup hnbs, hjb, fun t ht => ?_⟩
      have htbs : t ∈ bs.flatMap nodes := mem_flatMap.2 ⟨b, hb, ht⟩
      have hts : s ≠ t := fun heq => hsbs (heq ▸ htbs)
      have htj : t ≠ j := fun heq => hjb (heq ▸ ht)
      have htrest : t ∉ rest.nodes := fun hmem => hdisj htbs (mem_cons_of_mem _ hmem)
      have htn : t ≠ n := fun heq => hnbs' (heq ▸ htbs)
      have hfilter := hhost t (.inr (.inl htbs))
      rwa [filter_cons_of_neg (by simpa using hts), filter_append,
        filter_edges_eq_nil htrest htn, append_nil, filter_branches_of_mem hnbs hb ht htj]
        at hfilter
    · refine ⟨hrest, hnrest, hnrest', fun t ht => ?_⟩
      have hts : s ≠ t := fun heq => hsrest (heq ▸ ht)
      have htj : t ≠ j := fun heq => hjrest (heq ▸ ht)
      have htbs : t ∉ bs.flatMap nodes := fun hmem => hdisj hmem (mem_cons_of_mem _ ht)
      have hfilter := hhost t (.inr (.inr (.inr ht)))
      rwa [filter_cons_of_neg (by simpa using hts), filter_append,
        filter_branches_eq_nil htbs htj, nil_append] at hfilter

/-- Every block of a placed body is placed. -/
theorem Placed.of_mem_gates (h : Placed out E b a n) (hmem : (s, j, bs) ∈ b.gates) :
    ∃ rest a' n', Placed out E (.gate s j bs rest) a' n' := by
  induction b generalizing a n with
  | nil => simp [gates] at hmem
  | leaf x rest ih => exact ih h.leaf.2.2 hmem
  | gate s' j' bs' rest ihbs ih =>
    simp only [gates_gate, mem_cons, mem_append, mem_flatMap, Prod.mk.injEq] at hmem
    obtain ⟨-, -, -, -, -, -, hbs, hrest⟩ := h.gate
    rcases hmem with ⟨rfl, rfl, rfl⟩ | ⟨b, hb, hmem⟩ | hmem
    · exact ⟨rest, a, n, h⟩
    · exact ihbs b hb (hbs b hb) hmem
    · exact ih hrest hmem

end Placed

/-! ### Paths -/

section Paths

variable {out : α → List α} {b rest : Body α} {n x y s j : α} {bs : List (Body α)}

/-- A node lists another one as a successor. -/
def Step (out : α → List α) (x y : α) : Prop := y ∈ out x

instance [DecidableEq α] (out : α → List α) (x y : α) : Decidable (Step out x y) :=
  inferInstanceAs (Decidable (y ∈ out x))

/-- The successors of the nodes of a wired body are nodes of it, or the node after it. -/
theorem Wires.closed (h : b.Wires out n) (hx : x ∈ b.nodes) (hstep : Step out x y) :
    y ∈ b.nodes ∨ y = n := by
  have hedge : (x, y) ∈ b.edges x n :=
    (edges_perm h x).subset (mem_cons_of_mem _ (mem_listed.2 ⟨hx, hstep⟩))
  exact target_of_mem_edges hedge

/-- A split lists the first node of each of its branches. -/
theorem step_entry (hs : out s = bs.map (·.entry j)) (hb : b ∈ bs) : Step out s (b.entry j) := by
  rw [Step, hs]
  exact mem_map_of_mem hb

/-- A path leads from the first node of a body to every node of it, and from there out of it. -/
theorem Wires.reaches (h : b.Wires out n) (hne : ∀ g ∈ b.gates, g.2.2 ≠ []) :
    ReflTransGen (Step out) (b.entry n) n ∧ ∀ x ∈ b.nodes,
      ReflTransGen (Step out) (b.entry n) x ∧ ReflTransGen (Step out) x n := by
  induction h with
  | nil => exact ⟨.refl, by simp⟩
  | @leaf x rest n hx hrest ih =>
    obtain ⟨hout, hall⟩ := ih hne
    have hstep : Step out x (rest.entry n) := by simp [Step, hx]
    refine ⟨.head hstep hout, ?_⟩
    intro y hy
    rcases mem_cons.1 hy with rfl | hy
    · exact ⟨.refl, .head hstep hout⟩
    · exact ⟨.head hstep (hall y hy).1, (hall y hy).2⟩
  | @gate s j bs rest n hs hbs hj hrest ihbs ih =>
    simp only [gates_gate, mem_cons, mem_append, mem_flatMap] at hne
    obtain ⟨hout, hall⟩ := ih fun g hg => hne g (.inr (.inr hg))
    have hbranch : ∀ b ∈ bs, ReflTransGen (Step out) (b.entry j) j ∧ ∀ x ∈ b.nodes,
        ReflTransGen (Step out) (b.entry j) x ∧ ReflTransGen (Step out) x j := fun b hb =>
      ihbs b hb fun g hg => hne g (.inr (.inl ⟨b, hb, hg⟩))
    have hjstep : Step out j (rest.entry n) := by simp [Step, hj]
    have hjout : ReflTransGen (Step out) j n := .head hjstep hout
    -- some branch leads from the split to the join
    obtain ⟨b, hb⟩ := exists_mem_of_ne_nil _ (hne _ (.inl rfl))
    have hsj : ReflTransGen (Step out) s j := .head (step_entry hs hb) (hbranch b hb).1
    refine ⟨hsj.trans hjout, ?_⟩
    intro y hy
    simp only [nodes_gate, mem_cons, mem_append, mem_flatMap] at hy
    rcases hy with rfl | ⟨c, hc, hy⟩ | rfl | hy
    · exact ⟨.refl, hsj.trans hjout⟩
    · obtain ⟨hin, hend⟩ := (hbranch c hc).2 y hy
      exact ⟨.head (step_entry hs hc) hin, hend.trans hjout⟩
    · exact ⟨hsj, hjout⟩
    · exact ⟨hsj.trans (.head hjstep (hall y hy).1), (hall y hy).2⟩

/-- A path from a split stays in the branches until it comes to the join. -/
theorem Wires.mem_branches_or_reflTransGen (h : (Body.gate s j bs rest).Wires out n)
    (hpath : TransGen (Step out) s x) : x ∈ bs.flatMap nodes ∨ ReflTransGen (Step out) j x := by
  cases h with
  | gate hs hbs hj hrest =>
    have hentry : ∀ b ∈ bs, ∀ y, (y ∈ b.nodes ∨ y = j) →
        y ∈ bs.flatMap nodes ∨ ReflTransGen (Step out) j y := by
      rintro b hb y (hy | rfl)
      · exact .inl (mem_flatMap.2 ⟨b, hb, hy⟩)
      · exact .inr .refl
    induction hpath with
    | single hstep =>
      rw [Step, hs] at hstep
      obtain ⟨b, hb, rfl⟩ := mem_map.1 hstep
      refine hentry b hb _ ?_
      rcases b.entry_mem j with hmem | rfl
      · exact .inl hmem
      · exact .inr rfl
    | tail _ hstep ih =>
      rcases ih with hmem | hreach
      · obtain ⟨b, hb, hmem⟩ := mem_flatMap.1 hmem
        exact hentry b hb _ ((hbs b hb).closed hmem hstep)
      · exact .inr (hreach.tail hstep)

/-- **The nodes between a split and its join** are those of its branches, and the join. -/
theorem Wires.between_iff (h : (Body.gate s j bs rest).Wires out n)
    (hne : ∀ g ∈ (Body.gate s j bs rest).gates, g.2.2 ≠ [])
    (hacyclic : ∀ x, ¬TransGen (Step out) x x) :
    TransGen (Step out) s x ∧ ReflTransGen (Step out) x j ↔ x ∈ bs.flatMap nodes ∨ x = j := by
  constructor
  · rintro ⟨hfrom, hto⟩
    rcases h.mem_branches_or_reflTransGen hfrom with hmem | hreach
    · exact .inl hmem
    · rcases reflTransGen_iff_eq_or_transGen.1 hreach with rfl | hcycle
      · exact .inr rfl
      · exact absurd (hcycle.trans_left hto) (hacyclic j)
  · cases h with
    | gate hs hbs hj hrest =>
      have hbranch : ∀ b ∈ bs, ReflTransGen (Step out) (b.entry j) j ∧ ∀ x ∈ b.nodes,
          ReflTransGen (Step out) (b.entry j) x ∧ ReflTransGen (Step out) x j := by
        intro b hb
        refine (hbs b hb).reaches fun g hg => hne g ?_
        simp only [gates_gate, mem_cons, mem_append, mem_flatMap]
        exact .inr (.inl ⟨b, hb, hg⟩)
      rintro (hmem | rfl)
      · obtain ⟨b, hb, hmem⟩ := mem_flatMap.1 hmem
        obtain ⟨hin, hend⟩ := (hbranch b hb).2 x hmem
        exact ⟨.head' (step_entry hs hb) hin, hend⟩
      · obtain ⟨b, hb⟩ := exists_mem_of_ne_nil _ (hne (s, x, bs) (by simp))
        exact ⟨.head' (step_entry hs hb) (hbranch b hb).1, .refl⟩

theorem idxOf_lt_of_sublist [DecidableEq α] {l : List α} (hnodup : l.Nodup)
    (h : List.Sublist [x, y] l) : l.idxOf x < l.idxOf y := by
  induction l with
  | nil => simp at h
  | cons z l ih =>
    rw [nodup_cons] at hnodup
    cases h with
    | cons _ h =>
      have hx : z ≠ x := fun heq => hnodup.1 (heq ▸ h.subset mem_cons_self)
      have hy : z ≠ y := fun heq => hnodup.1 (heq ▸ h.subset (by simp))
      rw [idxOf_cons_ne _ hx, idxOf_cons_ne _ hy]
      exact Nat.succ_lt_succ (ih hnodup.2 h)
    | cons_cons _ h =>
      have hy : x ≠ y := fun heq => hnodup.1 (heq ▸ h.subset mem_cons_self)
      rw [idxOf_cons_self, idxOf_cons_ne _ hy]
      exact Nat.succ_pos _

/-- **The graph of a body has no cycle.** -/
theorem acyclic_of_edges [DecidableEq α] {a : α} (hnodup : (a :: (b.nodes ++ [n])).Nodup)
    (hedge : ∀ x y, Step out x y → (x, y) ∈ b.edges a n) (x : α) : ¬TransGen (Step out) x x := by
  set L := a :: (b.nodes ++ [n]) with hL
  have hlt : ∀ {x y}, TransGen (Step out) x y → L.idxOf x < L.idxOf y := by
    intro x y hpath
    induction hpath with
    | single hstep => exact idxOf_lt_of_sublist hnodup (sublist_of_mem_edges (hedge _ _ hstep))
    | tail _ hstep ih =>
      exact Nat.lt_trans ih (idxOf_lt_of_sublist hnodup (sublist_of_mem_edges (hedge _ _ hstep)))
  exact fun hcycle => Nat.lt_irrefl _ (hlt hcycle)

end Paths

end Body

end Graph
