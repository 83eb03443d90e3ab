import SharWorkflow.Gateways.Transforms

/-!
# The keys collected in a block-structured process

Within a block the walk from the split to its join comes through whole bodies: what lies between is
properly nested, so that no inner flow leads to the join of the block. Only a branch without
elements does, and it ends the loop over the branches.

* `BlockStructured.visits_entry`: the walk through a body adds the keys of all its elements.
* `collectedKeys_iff`: the keys are those of all elements between the split and the join, unless a
  branch is listed after an empty one and adds a key of its own.
-/

namespace SharWorkflow

open Graph Relation List

/-- The output transform of an element has a key. -/
def HasKey (T : GoMap Element) (x k : String) : Prop :=
  ∃ e, T.lookup x = some e ∧ k ∈ e.outputTransform

/-- The element `x` lies on a path from the split `s` to the join `j`; it may be the join. -/
def Between (p : Process) (s j x : String) : Prop :=
  TransGen (Body.Step p.out) s x ∧ ReflTransGen (Body.Step p.out) x j

variable {x : String}

theorem Visits.congr {T : GoMap Element} {j : String} {S S' : String → Prop}
    (h : Visits T j x S) (heq : ∀ k, S' k ↔ S k) : Visits T j x S' := by
  obtain ⟨e, he, ⟨hj, hS⟩ | ⟨hne, S₀, hcollects, hS⟩⟩ := h
  · exact ⟨e, he, .inl ⟨hj, fun k => (heq k).trans (hS k)⟩⟩
  · exact ⟨e, he, .inr ⟨hne, S₀, hcollects, fun k => (heq k).trans (hS k)⟩⟩

variable {β : Type} {xs : List β} {S : β → String → Prop} {bs : List (Body String)} {s : String}

namespace BlockStructured

variable {p : Process} (B : BlockStructured p) {j : String}

include B

theorem lookup_element (hx : x ∈ B.body.nodes) :
    ∃ e, (processTable p).lookup x = some e ∧ p.out x = e.targetIds := by
  obtain ⟨e, he, rfl⟩ := B.exists_element (mem_cons_of_mem _ (mem_append_left _ hx))
  exact ⟨e, lookup_processTable B.nodup (mem_append_left _ he),
    Process.out_eq B.nodup_elements he⟩

/-- What is collected from an element whose flows are known. -/
theorem collects_of_out (hx : x ∈ B.body.nodes) (f : β → String) (hout : p.out x = xs.map f)
    (hne : xs ≠ [])
    (h : ∀ b ∈ followed (fun b => f b = j) xs, Visits (processTable p) j (f b) (S b)) :
    Collects (processTable p) j x fun k => ∃ b ∈ followed (fun b => f b = j) xs, S b k := by
  obtain ⟨e, he, heout⟩ := B.lookup_element hx
  rw [heout] at hout
  cases houtbound : e.outbound with
  | none =>
    rw [Element.targetIds, houtbound] at hout
    exact absurd (map_eq_nil_iff.1 hout.symm) hne
  | some outbound => exact collects_of_visits (indexed_processTable p) he houtbound f hout h

/-- What is added on the way from an element other than the join. -/
theorem visits_of_out (hx : x ∈ B.body.nodes) (hxj : x ≠ j)
    (f : β → String) (hout : p.out x = xs.map f) (hne : xs ≠ [])
    (h : ∀ b ∈ followed (fun b => f b = j) xs, Visits (processTable p) j (f b) (S b)) :
    Visits (processTable p) j x fun k =>
      HasKey (processTable p) x k ∨ ∃ b ∈ followed (fun b => f b = j) xs, S b k := by
  obtain ⟨e, he, -⟩ := B.lookup_element hx
  refine ⟨e, he, .inr ⟨hxj, _, B.collects_of_out hx f hout hne h, fun k => ?_⟩⟩
  simp [HasKey, he]

/-- What is added on the way from an element with one flow. -/
theorem visits_of_next {y : String} (hx : x ∈ B.body.nodes) (hxj : x ≠ j)
    (hout : p.out x = [y]) {S : String → Prop} (h : Visits (processTable p) j y S) :
    Visits (processTable p) j x fun k => HasKey (processTable p) x k ∨ S k := by
  have hmap : p.out x = [y].map id := by rw [hout, List.map_id]
  refine (B.visits_of_out hx hxj id hmap (by simp) (S := fun _ => S) fun z hz => ?_).congr
    fun k => ?_
  · rw [followed_singleton, mem_singleton] at hz
    exact hz ▸ h
  · rw [followed_singleton]
    simp

omit B in
/-- No branch of an inner block leads straight to the join, so that all of them are followed. -/
theorem followed_entry_eq_self {j' : String} (hbs : j ∉ bs.flatMap Body.nodes) (hne : j ≠ j') :
    followed (fun b : Body String => b.entry j' = j) bs = bs := by
  refine followed_eq_self fun b hb => ?_
  rw [decide_eq_false_iff_not]
  intro heq
  rcases b.entry_mem j' with hmem | rfl
  · exact hbs (mem_flatMap.2 ⟨b, hb, heq ▸ hmem⟩)
  · exact hne heq.symm

/-- **The walk through a body** that the join is not in adds the keys of all its elements, and goes
on after it. -/
theorem visits_entry {b : Body String} {n : String} (hwires : b.Wires p.out n)
    (hsub : b.nodes ⊆ B.body.nodes) (hne : ∀ g ∈ b.gates, g.2.2 ≠ []) (hj : j ∉ b.nodes)
    {S : String → Prop} (hn : Visits (processTable p) j n S) :
    Visits (processTable p) j (b.entry n) fun k =>
      (∃ x ∈ b.nodes, HasKey (processTable p) x k) ∨ S k := by
  induction hwires generalizing S with
  | nil => exact hn.congr fun k => by simp
  | @leaf x rest n hx hrest ih =>
    simp only [Body.nodes_leaf, cons_subset, mem_cons, not_or] at hsub hj
    have hvisits := ih hsub.2 hne hj.2 hn
    refine (B.visits_of_next hsub.1 (Ne.symm hj.1) hx hvisits).congr fun k => ?_
    simp [or_assoc]
  | @gate s' j' bs rest n hs hbs hj' hrest ihbs ih =>
    simp only [Body.nodes_gate, Body.gates_gate, cons_subset, append_subset,
      mem_cons, mem_append, not_or] at hsub hj hne
    obtain ⟨hs'mem, hbsub, hj'mem, hrestsub⟩ := hsub
    obtain ⟨hjs, hjbs, hjj, hjrest⟩ := hj
    have hafter := ih hrestsub (fun g hg => hne g (.inr (.inr hg))) hjrest hn
    -- from the join of the block on
    have hjoin : Visits (processTable p) j j' fun k => HasKey (processTable p) j' k ∨
        (∃ x ∈ rest.nodes, HasKey (processTable p) x k) ∨ S k :=
      B.visits_of_next hj'mem (Ne.symm hjj) hj' hafter
    have hbranch : ∀ b ∈ bs, Visits (processTable p) j (b.entry j') fun k =>
        (∃ x ∈ b.nodes, HasKey (processTable p) x k) ∨ HasKey (processTable p) j' k ∨
          (∃ x ∈ rest.nodes, HasKey (processTable p) x k) ∨ S k := by
      intro b hb
      refine ihbs b hb (fun x hx => hbsub (mem_flatMap.2 ⟨b, hb, hx⟩))
        (fun g hg => hne g (.inr (.inl (mem_flatMap.2 ⟨b, hb, hg⟩))))
        (fun hmem => hjbs (mem_flatMap.2 ⟨b, hb, hmem⟩)) hjoin
    have hbsne : bs ≠ [] := hne _ (.inl rfl)
    refine (B.visits_of_out hs'mem (Ne.symm hjs) (·.entry j') hs hbsne
      fun b hb => hbranch b (followed_subset hb)).congr fun k => ?_
    -- what every branch adds is added, as there is a branch
    have hsome : ∃ b, b ∈ bs := exists_mem_of_ne_nil _ hbsne
    rw [followed_entry_eq_self hjbs hjj, Body.exists_mem_nodes_gate]
    simp only [and_or_left, exists_or, exists_and_right, hsome, true_and, or_assoc]

/-- The graph of the process has no cycle. -/
theorem acyclic (x : String) : ¬TransGen (Body.Step p.out) x x := by
  refine Body.acyclic_of_edges B.nodup_body (fun x y hstep => ?_) x
  rw [Body.Step, Process.out] at hstep
  cases he : p.elementOf x with
  | none => simp [he] at hstep
  | some e =>
    obtain ⟨hmem, rfl⟩ := Process.elementOf_eq_some he
    rw [he] at hstep
    exact B.flows_perm.subset (mem_flatMap.2 ⟨e, hmem, mem_map.2 ⟨y, hstep, rfl⟩⟩)

/-- What is collected from the split of a block for its join: the flows after the first one that
leads straight to the join are not followed. -/
theorem collects_gate (h : (s, j, bs) ∈ B.body.gates) :
    Collects (processTable p) j s fun k => ∃ b ∈ followed (fun b => b.entry j = j) bs,
      (∃ x ∈ b.nodes, HasKey (processTable p) x k) ∨ HasKey (processTable p) j k := by
  obtain ⟨hs, hj⟩ := B.mem_nodes_of_mem_gates h
  obtain ⟨rest, a, n, hplaced⟩ := B.placed.of_mem_gates h
  obtain ⟨-, -, hsout, -, -, -, hbs, -⟩ := hplaced.gate
  obtain ⟨ej, hej, -⟩ := B.lookup_element hj
  have hvisitsJoin : Visits (processTable p) j j fun k => HasKey (processTable p) j k :=
    ⟨ej, hej, .inl ⟨rfl, fun k => by simp [HasKey, hej]⟩⟩
  refine B.collects_of_out hs (·.entry j) hsout (B.branches_ne_nil h) fun b hb => ?_
  have hb := followed_subset hb
  obtain ⟨hleaves, hgates⟩ := Body.subset_of_mem_gates h hb
  refine B.visits_entry (hbs b hb).wires (fun x hx => ?_)
    (fun g hg => B.branches_ne_nil (hgates hg)) (hbs b hb).fresh hvisitsJoin
  rcases Body.mem_nodes_iff.1 hx with hx | ⟨g, hg, hx⟩
  · exact Body.mem_nodes_iff.2 (.inl (hleaves hx))
  · exact Body.mem_nodes_iff.2 (.inr ⟨g, hgates hg, hx⟩)

theorem between_iff (h : (s, j, bs) ∈ B.body.gates)
    (x : String) : Between p s j x ↔ x ∈ bs.flatMap Body.nodes ∨ x = j := by
  obtain ⟨rest, a, n, hplaced⟩ := B.placed.of_mem_gates h
  -- what follows the join does not matter: the block is taken on its own
  have hblock : (Body.gate s j bs .nil).Wires p.out (rest.entry n) := by
    cases hplaced.wires with
    | gate hs hbs hj _ => exact .gate hs hbs hj .nil
  refine hblock.between_iff (fun g hg => ?_) B.acyclic
  simp only [Body.gates_gate, mem_cons, mem_append, mem_flatMap] at hg
  rcases hg with rfl | ⟨b, hb, hg⟩ | hg
  · exact B.branches_ne_nil h
  · exact B.branches_ne_nil ((Body.subset_of_mem_gates h hb).2 hg)
  · exact absurd hg not_mem_nil

end BlockStructured

/-- **What is collected for the join of a block** is the keys of all elements between the split and
the join exactly when a branch that is listed after an empty one adds none of its own. -/
theorem collectedKeys_iff (p : Process) (B : BlockStructured p) (s j : String)
    (bs : List (Body String)) (hgate : (s, j, bs) ∈ B.body.gates) :
    (∃ e fuel r, (processTable p).lookup s = some e ∧
      findGatewayBranchOutputTransforms (processTable p) j fuel e ∅ = .done r ∧
      ∀ k, k ∈ r ↔ ∃ x, Between p s j x ∧ HasKey (processTable p) x k) ↔
      ∀ b ∈ bs, ∀ x ∈ b.nodes, ∀ k, HasKey (processTable p) x k →
        HasKey (processTable p) j k ∨ ∃ b' ∈ followed (fun b => b.entry j = j) bs,
          ∃ x' ∈ b'.nodes, HasKey (processTable p) x' k := by
  have ⟨e, he, n, hn⟩ := B.collects_gate hgate
  obtain ⟨r, hr, hkeys⟩ := hn n le_rfl ∅
  have hbetween := B.between_iff hgate
  constructor
  · rintro ⟨e', fuel, r', he', hr', hall⟩ b hb x hx k hkey
    obtain rfl : e = e' := Option.mem_unique he he'
    -- what is collected does not depend on the fuel
    obtain rfl : r = r' := by
      have h := findGatewayBranchOutputTransforms_mono (Nat.le_max_left n fuel) hr
      have h' := findGatewayBranchOutputTransforms_mono (Nat.le_max_right n fuel) hr'
      rw [h] at h'
      exact Parsed.done.inj h'
    have hk : k ∈ r :=
      (hall k).2 ⟨x, (hbetween x).2 (.inl (List.mem_flatMap.2 ⟨b, hb, hx⟩)), hkey⟩
    obtain hempty | ⟨b', hb', hx' | hj⟩ := (hkeys k).1 hk
    · simp at hempty
    · exact .inr ⟨b', hb', hx'⟩
    · exact .inl hj
  · intro hafter
    refine ⟨e, n, r, he, hr, fun k => ?_⟩
    rw [hkeys]
    constructor
    · rintro (hempty | ⟨b, hb, ⟨x, hx, hkey⟩ | hj⟩)
      · simp at hempty
      · exact ⟨x, (hbetween x).2 (.inl (List.mem_flatMap.2 ⟨b, followed_subset hb, hx⟩)), hkey⟩
      · exact ⟨j, (hbetween j).2 (.inr rfl), hj⟩
    · rintro ⟨x, hx, hkey⟩
      obtain ⟨b₀, hb₀⟩ := exists_mem_followed (fun b : Body String => b.entry j = j)
        (B.branches_ne_nil hgate)
      rcases (hbetween x).1 hx with hmem | rfl
      · obtain ⟨b, hb, hmem⟩ := List.mem_flatMap.1 hmem
        rcases hafter b hb x hmem k hkey with hj | ⟨b', hb', hx'⟩
        · exact .inr ⟨b₀, hb₀, .inr hj⟩
        · exact .inr ⟨b', hb', .inl hx'⟩
      · exact .inr ⟨b₀, hb₀, .inr hkey⟩

theorem collectedKeys_iff_diamond : HasKey (processTable diamond) "a" "x" ∧
    ∃ e fuel r, (processTable diamond).lookup "fork" = some e ∧
      findGatewayBranchOutputTransforms (processTable diamond) "join" fuel e ∅ = .done r ∧
      ∀ k, k ∈ r ↔ ∃ x, Between diamond "fork" "join" x ∧ HasKey (processTable diamond) x k := by
  refine ⟨⟨_, rfl, by decide⟩, (collectedKeys_iff diamond diamondBlocks "fork" "join"
    [.leaf "a" .nil, .leaf "b" .nil] List.mem_cons_self).2 ?_⟩
  -- no branch leads straight to the join, so that both are followed
  intro b hb x hx k hkey
  exact .inr ⟨b, hb, x, hx, hkey⟩

/-- A task that may be passed over, where the flow that does so is listed first. -/
def shortcut : Process :=
  { id := "shortcut"
    elements := [startTo "start" "fork", gatewayTo .inclusive "fork" ["join", "a"],
      writerTo "a" "join" "x", gatewayTo .inclusive "join" ["end"], endAt "end"] }

def shortcutBlocks : BlockStructured shortcut where
  start := "start"
  finish := "end"
  body := .gate "fork" "join" [.nil, .leaf "a" .nil] .nil
  ids := List.Perm.refl _
  nodup := by decide
  start_out := rfl
  wires := .gate rfl (List.forall_mem_cons.2 ⟨.nil, List.forall_mem_cons.2
    ⟨.leaf rfl .nil, List.forall_mem_nil _⟩⟩) rfl .nil
  finish_out := rfl
  tasks := by decide
  gates := by
    intro s j bs h
    cases List.mem_singleton.1 h
    exact ⟨by decide, .inclusive, rfl, rfl⟩

/-- The flow to the join ends the loop, and the output of the task is not collected. -/
theorem shortcut_loses_key : ("fork", "join", [.nil, .leaf "a" .nil]) ∈ shortcutBlocks.body.gates ∧
      Between shortcut "fork" "join" "a" ∧ HasKey (processTable shortcut) "a" "x" ∧
      ∃ e, (processTable shortcut).lookup "fork" = some e ∧
        findGatewayBranchOutputTransforms (processTable shortcut) "join" 1 e ∅ = .done ∅ ∧
        ∀ fuel r, findGatewayBranchOutputTransforms (processTable shortcut) "join" fuel e ∅ =
          .done r → "x" ∉ r := by
  have hone : findGatewayBranchOutputTransforms (processTable shortcut) "join" 1
      (gatewayTo .inclusive "fork" ["join", "a"]) ∅ = .done ∅ := rfl
  refine ⟨List.mem_cons_self, ⟨.single (by decide), .single (by decide)⟩,
    ⟨_, rfl, by decide⟩, _, rfl, hone, fun fuel r hr => ?_⟩
  have h := findGatewayBranchOutputTransforms_mono (Nat.le_max_left fuel 1) hr
  rw [findGatewayBranchOutputTransforms_mono (Nat.le_max_right fuel 1) hone] at h
  obtain rfl := Parsed.done.inj h
  exact AList.notMem_empty _

end SharWorkflow
