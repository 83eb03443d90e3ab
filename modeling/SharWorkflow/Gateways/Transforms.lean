import SharWorkflow.Gateways.Blocks
import SharWorkflow.Client.Linter

/-!
# The output transforms that a join collects

`findGatewayBranchOutputTransforms` goes from a split along the flows and stops at the join. At an
element it takes the flows in their order, and a flow to the join ends the loop: the flows after it
are not **followed**. Nothing else stops the walk, so that it panics at an element without flows and
goes round any cycle on its way.

* `Collects`: the walk from an element ends, and what it adds.
* `findConvergentGatewayOutputTransforms_iff`: the output transforms of all joins are found exactly
  when every walk that is followed leads from the split to the join.
-/

namespace SharWorkflow

open Graph Relation List Parsed AList

/-! ### Tables -/

/-- The element that is indexed under an id is the one behind the pointer. -/
theorem lookup_processTable_eq (p : Process) (id : String) :
    (processTable p).lookup id = ((indexPointers p).lookup id).bind fun i => p.allElements[i]? := by
  have hsame : ∀ order, (∀ i ∈ order, p.allElements[i.2]? = some i.1) →
      (indexProcessElements (order.map Prod.fst) ∅).lookup id =
        ((pointersOf order).lookup id).bind fun i => p.allElements[i]? := by
    intro order horder
    induction order using List.reverseRecOn with
    | nil => simp [indexProcessElements, pointersOf]
    | append_singleton order last ih =>
      have happend : indexProcessElements ((order ++ [last]).map Prod.fst) ∅ =
          (indexProcessElements (order.map Prod.fst) ∅).insert last.1.id last.1 := by
        simp [indexProcessElements]
      rw [happend, pointersOf_append]
      by_cases hid : id = last.1.id
      · subst hid
        rw [lookup_insert, lookup_insert, Option.bind_some, horder last (by simp)]
      · rw [lookup_insert_ne hid, lookup_insert_ne hid]
        exact ih fun i hi => horder i (mem_append_left _ hi)
  exact hsame p.indexOrder fun i hi => Process.mem_indexOrder.1 hi

variable {e : Element}

/-- In a process whose ids are distinct an element is found under its id. -/
theorem lookup_processTable {p : Process} (hnodup : (p.allElements.map (·.id)).Nodup)
    (he : e ∈ p.allElements) : (processTable p).lookup e.id = some e := by
  obtain ⟨i, hi⟩ := mem_iff_getElem?.1 he
  have hid : idAt p.allElements i = some e.id := by rw [idAt, hi, Option.map_some]
  have hpointer := (Process.pointer_eq_some_iff hnodup).2 hid
  rw [lookup_processTable_eq, show (indexPointers p).lookup e.id = some i from hpointer,
    Option.bind_some, hi]

variable {transform : GoMap String}

theorem mem_addTransforms {transform' : GoMap String} {k : String} :
    k ∈ addTransforms transform transform' ↔ k ∈ transform ∨ k ∈ transform' := by
  have hfold : ∀ (l : List (Sigma fun _ : String => String)) (t : GoMap String),
      k ∈ l.foldl (fun t kv => t.insert kv.1 kv.2) t ↔ k ∈ t ∨ k ∈ l.map (·.1) := by
    intro l
    induction l with
    | nil => simp
    | cons kv l ih =>
      intro t
      rw [foldl_cons, ih, mem_insert, map_cons, mem_cons, or_assoc,
        or_left_comm]
  exact hfold transform'.entries transform

/-! ### The walk -/

/-- The members of a list up to the first one that stops the walk. -/
def followed {β : Type} (stop : β → Bool) : List β → List β
  | [] => []
  | b :: rest => if stop b then [b] else b :: followed stop rest

variable {β : Type} {stop : β → Bool}

theorem followed_cons_of_stop {b : β} (h : stop b = true)
    (rest : List β) : followed stop (b :: rest) = [b] := by
  rw [followed, if_pos h]

theorem followed_cons_of_not_stop {b : β} (h : stop b = false)
    (rest : List β) : followed stop (b :: rest) = b :: followed stop rest := by
  rw [followed, if_neg (by simp [h])]

variable {xs : List β}

theorem followed_subset : followed stop xs ⊆ xs := by
  induction xs with
  | nil => exact List.Subset.refl _
  | cons b rest ih =>
    rw [followed]
    split
    · simp
    · exact cons_subset_cons b ih

@[simp]
theorem followed_singleton (stop : β → Bool) (b : β) : followed stop [b] = [b] := by
  simp [followed]

theorem exists_mem_followed (stop : β → Bool) (hne : xs ≠ []) : ∃ b, b ∈ followed stop xs := by
  obtain ⟨b, rest, rfl⟩ := exists_cons_of_ne_nil hne
  refine ⟨b, ?_⟩
  rw [followed]
  split <;> simp

theorem followed_eq_self (h : ∀ b ∈ xs, stop b = false) : followed stop xs = xs := by
  induction xs with
  | nil => rfl
  | cons b rest ih =>
    rw [followed_cons_of_not_stop (h b mem_cons_self),
      ih fun c hc => h c (mem_cons_of_mem _ hc)]

variable {find : Element → GoMap String → Parsed (GoMap String)} {t : Target}
  {S : β → String → Prop} {targets : List Target} {x : String} {r : GoMap String} {ej : Element}
  {d : String} {find' : Element → GoMap String → Parsed (GoMap String)}

section Walk

variable {T : GoMap Element} {j : String}

/-- The element `x` has flows, and one that the walk to `j` follows leads to `y`, from where the
walk goes on. -/
def Walks (T : GoMap Element) (j x y : String) : Prop :=
  ∃ e, T.lookup x = some e ∧ y ∈ followed (· = j) e.targetIds ∧ y ≠ j

/-- The walk from the element `x` ends, whatever has been collected before, and adds the keys
`S`. -/
def Collects (T : GoMap Element) (j x : String) (S : String → Prop) : Prop :=
  ∃ e, T.lookup x = some e ∧ ∃ n, ∀ m, n ≤ m → ∀ transform, ∃ r,
    findGatewayBranchOutputTransforms T j m e transform = .done r ∧
      ∀ k, k ∈ r ↔ k ∈ transform ∨ S k

/-- A flow to the element `x` is followed to its end, and adds the keys `S`. -/
def Visits (T : GoMap Element) (j x : String) (S : String → Prop) : Prop :=
  ∃ e, T.lookup x = some e ∧
    ((x = j ∧ ∀ k, S k ↔ k ∈ e.outputTransform) ∨
      (x ≠ j ∧ ∃ S', Collects T j x S' ∧ ∀ k, S k ↔ k ∈ e.outputTransform ∨ S' k))

/-- A flow to the join ends the loop over the flows. -/
theorem collectTargets_cons_of_eq (he : T.lookup t.target = some e) (hid : e.id = j)
    (targets : List Target) (transform : GoMap String) :
    collectTargets T j find (t :: targets) transform =
      .done (addTransforms transform e.outputTransform) := by
  rw [collectTargets, he, deref_some, done_bind, if_pos hid, pure_eq]

/-- Another flow is followed, and then the flows after it. -/
theorem collectTargets_cons_of_ne (he : T.lookup t.target = some e) (hid : e.id ≠ j)
    (targets : List Target) (transform : GoMap String) :
    collectTargets T j find (t :: targets) transform =
      find e (addTransforms transform e.outputTransform) >>= collectTargets T j find targets := by
  rw [collectTargets, he, deref_some, done_bind, if_neg hid]

section

variable (hT : Indexed T)
include hT

/-- The loop over the flows of an element. -/
theorem collectTargets_of_visits (f : β → String)
    (htargets : targets.map (·.target) = xs.map f)
    (h : ∀ b ∈ followed (fun b => f b = j) xs, Visits T j (f b) (S b)) :
    ∃ n, ∀ m, n ≤ m → ∀ transform, ∃ r,
      collectTargets T j (findGatewayBranchOutputTransforms T j m) targets transform = .done r ∧
        ∀ k, k ∈ r ↔ k ∈ transform ∨ ∃ b ∈ followed (fun b => f b = j) xs, S b k := by
  induction xs generalizing targets with
  | nil =>
    obtain rfl : targets = [] := by simpa using htargets
    exact ⟨0, fun m _ transform => ⟨transform, rfl, by simp [followed]⟩⟩
  | cons b rest ih =>
    match targets, htargets with
    | t :: targets, htargets =>
    simp only [map_cons, List.cons.injEq] at htargets
    obtain ⟨ht, htargets⟩ := htargets
    by_cases hb : f b = j
    · rw [followed_cons_of_stop (by simpa using hb)] at h ⊢
      obtain ⟨e, he, ⟨-, hS⟩ | ⟨hne, -⟩⟩ := h b mem_cons_self
      swap
      · exact absurd hb hne
      refine ⟨0, fun m _ transform => ⟨addTransforms transform e.outputTransform, ?_, fun k => ?_⟩⟩
      · exact collectTargets_cons_of_eq (ht ▸ he) ((hT _ _ he).trans hb) _ _
      · rw [mem_addTransforms, ← hS]
        simp
    · rw [followed_cons_of_not_stop (by simpa using hb)] at h ⊢
      obtain ⟨e, he, ⟨heq, -⟩ | ⟨-, S', ⟨e', he', n, hcollects⟩, hS⟩⟩ := h b mem_cons_self
      · exact absurd heq hb
      obtain rfl : e = e' := Option.mem_unique he he'
      obtain ⟨n', hrest⟩ := ih htargets fun c hc => h c (mem_cons_of_mem _ hc)
      refine ⟨max n n', fun m hm transform => ?_⟩
      obtain ⟨r, hr, hkeys⟩ := hcollects m (by omega) (addTransforms transform e.outputTransform)
      obtain ⟨r', hr', hkeys'⟩ := hrest m (by omega) r
      refine ⟨r', ?_, fun k => ?_⟩
      · have hid : e.id ≠ j := fun hid => hb ((hT _ _ he).symm.trans hid)
        rw [collectTargets_cons_of_ne (ht ▸ he) hid, hr, done_bind, hr']
      · rw [hkeys', hkeys, mem_addTransforms]
        simp only [exists_mem_cons_iff, hS, or_assoc]

/-- An element whose flows are followed to their ends is walked to its end. -/
theorem collects_of_visits
    {outbound : Targets} (hx : T.lookup x = some e) (hout : e.outbound = some outbound)
    (f : β → String) (htargets : e.targetIds = xs.map f)
    (h : ∀ b ∈ followed (fun b => f b = j) xs, Visits T j (f b) (S b)) :
    Collects T j x fun k => ∃ b ∈ followed (fun b => f b = j) xs, S b k := by
  have hids : outbound.target.map (·.target) = xs.map f := by
    rw [← htargets, Element.targetIds, hout]
    rfl
  obtain ⟨n, hn⟩ := collectTargets_of_visits hT f hids h
  refine ⟨e, hx, n + 1, fun m hm transform => ?_⟩
  obtain ⟨m, rfl⟩ : ∃ m', m = m' + 1 := ⟨m - 1, by omega⟩
  obtain ⟨r, hr, hkeys⟩ := hn m (by omega) transform
  refine ⟨r, ?_, hkeys⟩
  rw [findGatewayBranchOutputTransforms, hout, deref_some, done_bind, hr]

/-! ### When the walk ends -/

/-- **Every walk from `d` that is followed leads to `j`**: each element on it has flows, and none
comes twice. -/
structure LeadsTo (T : GoMap Element) (d j : String) : Prop where
  flows : ∀ x, ReflTransGen (Walks T j) d x →
    ∃ e outbound, T.lookup x = some e ∧ e.outbound = some outbound
  acyclic : ∀ x, ReflTransGen (Walks T j) d x → ¬TransGen (Walks T j) x x

theorem collectTargets_each
    (h : collectTargets T j find targets transform = .done r) {y : String}
    (hy : y ∈ followed (· = j) (targets.map (·.target))) :
    ∃ e, T.lookup y = some e ∧ (y ≠ j → ∃ a b, find e a = .done b) := by
  induction targets generalizing transform with
  | nil => simp [followed] at hy
  | cons t targets ih =>
    rw [collectTargets, bind_eq_done] at h
    obtain ⟨e, he, h⟩ := h
    rw [deref_eq_done] at he
    have hid : e.id = t.target := hT _ _ he
    rw [map_cons] at hy
    by_cases ht : t.target = j
    · rw [followed_cons_of_stop (by simpa using ht), mem_singleton] at hy
      exact ⟨e, hy ▸ he, fun hne => absurd (hy.trans ht) hne⟩
    · rw [followed_cons_of_not_stop (by simpa using ht), mem_cons] at hy
      rw [if_neg (by rw [hid]; exact ht), bind_eq_done] at h
      obtain ⟨b, hb, hrest⟩ := h
      rcases hy with rfl | hy
      · exact ⟨e, he, fun _ => ⟨_, b, hb⟩⟩
      · exact ih hrest hy

/-- A walk that has ended has met flows everywhere, and no cycle. -/
theorem walks_of_done {n : Nat} (hx : T.lookup x = some e)
    (h : findGatewayBranchOutputTransforms T j n e transform = .done r) :
    Acc (flip (Walks T j)) x ∧ ∀ y, ReflTransGen (Walks T j) x y →
      ∃ e outbound, T.lookup y = some e ∧ e.outbound = some outbound := by
  induction n generalizing x e transform r with
  | zero => simp [findGatewayBranchOutputTransforms] at h
  | succ n ih =>
    rw [findGatewayBranchOutputTransforms, bind_eq_done] at h
    obtain ⟨outbound, hout, h⟩ := h
    rw [deref_eq_done] at hout
    have hstep : ∀ y, Walks T j x y → Acc (flip (Walks T j)) y ∧
        ∀ z, ReflTransGen (Walks T j) y z →
          ∃ e outbound, T.lookup z = some e ∧ e.outbound = some outbound := by
      rintro y ⟨e', he', hy, hne⟩
      obtain rfl : e = e' := Option.mem_unique hx he'
      rw [Element.targetIds, hout] at hy
      obtain ⟨ey, hey, hfind⟩ := collectTargets_each hT h hy
      obtain ⟨a, b, hb⟩ := hfind hne
      exact ih hey hb
    refine ⟨⟨_, fun y hy => (hstep y hy).1⟩, fun y hy => ?_⟩
    rcases ReflTransGen.cases_head hy with rfl | ⟨z, hz, hrest⟩
    · exact ⟨e, outbound, hx, hout⟩
    · exact (hstep z hz).2 y hrest

omit hT in
theorem finite_walks (d : String) : {y | ReflTransGen (Walks T j) d y}.Finite := by
  refine ((T.entries.flatMap fun e => e.2.targetIds).finite_toSet.insert d).subset ?_
  intro y hy
  rcases ReflTransGen.cases_tail hy with rfl | ⟨x, -, e, he, hmem, -⟩
  · exact Set.mem_insert _ _
  · refine Set.mem_insert_of_mem _ (mem_flatMap.2 ⟨⟨x, e⟩, mem_lookup_iff.1 he, ?_⟩)
    exact followed_subset hmem

/-- A walk that leads to the join ends. -/
theorem LeadsTo.exists_collects (hj : T.lookup j = some ej) (h : LeadsTo T d j) :
    ∃ S, Collects T j d S := by
  have hacc : Acc (flip (Walks T j)) d := by
    rw [acc_iff_acyclic (finite_walks d)]
    rintro ⟨y, hreach, hcycle⟩
    exact h.acyclic y hreach hcycle
  have hflows := h.flows
  clear h
  induction hacc with
  | intro d _ ih =>
    obtain ⟨e, outbound, he, hout⟩ := hflows d .refl
    have hvisits : ∀ y, ∃ S, y ∈ followed (· = j) e.targetIds → Visits T j y S := by
      intro y
      by_cases hmem : y ∈ followed (· = j) e.targetIds
      swap
      · exact ⟨fun _ => True, fun h => absurd h hmem⟩
      by_cases hy : y = j
      · subst hy
        exact ⟨fun k => k ∈ ej.outputTransform, fun _ => ⟨ej, hj, .inl ⟨rfl, fun _ => Iff.rfl⟩⟩⟩
      · have hwalk : Walks T j d y := ⟨e, he, hmem, hy⟩
        obtain ⟨S, hS⟩ := ih y hwalk fun z hz => hflows z (.head hwalk hz)
        obtain ⟨ey, -, hey, -⟩ := hflows y (.single hwalk)
        exact ⟨fun k => k ∈ ey.outputTransform ∨ S k,
          fun _ => ⟨ey, hey, .inr ⟨hy, S, hS, fun _ => Iff.rfl⟩⟩⟩
    choose S hS using hvisits
    have htargets : e.targetIds = e.targetIds.map id := by simp
    exact ⟨_, collects_of_visits hT he hout id htargets fun y hy => hS y hy⟩

/-- **The walk from a split ends with a result exactly when it leads to the join.** -/
theorem leadsTo_iff (hj : T.lookup j = some ej) :
    LeadsTo T d j ↔ ∃ e fuel r, T.lookup d = some e ∧
      findGatewayBranchOutputTransforms T j fuel e ∅ = .done r := by
  constructor
  · intro h
    obtain ⟨S, e, he, n, hn⟩ := h.exists_collects hT hj
    obtain ⟨r, hr, -⟩ := hn n le_rfl ∅
    exact ⟨e, n, r, he, hr⟩
  · rintro ⟨e, fuel, r, he, hr⟩
    obtain ⟨hacc, hflows⟩ := walks_of_done hT he hr
    rw [acc_iff_acyclic (finite_walks d)] at hacc
    exact ⟨hflows, fun x hreach hcycle => hacc ⟨x, hreach, hcycle⟩⟩

end

theorem collectTargets_mono (hfind : ∀ e a b, find e a = .done b → find' e a = .done b)
    (h : collectTargets T j find targets transform = .done r) :
    collectTargets T j find' targets transform = .done r := by
  induction targets generalizing transform with
  | nil => exact h
  | cons t targets ih =>
    rw [collectTargets, bind_eq_done] at h ⊢
    obtain ⟨e, he, h⟩ := h
    refine ⟨e, he, ?_⟩
    dsimp only at h ⊢
    split at h
    · rw [if_pos ‹_›]
      exact h
    · rw [bind_eq_done] at h
      obtain ⟨b, hb, hrest⟩ := h
      rw [if_neg ‹_›, bind_eq_done]
      exact ⟨b, hfind e _ b hb, ih hrest⟩

theorem findGatewayBranchOutputTransforms_mono {m n : Nat} (hle : m ≤ n)
    (h : findGatewayBranchOutputTransforms T j m e transform = .done r) :
    findGatewayBranchOutputTransforms T j n e transform = .done r := by
  induction m generalizing n e transform r with
  | zero => simp [findGatewayBranchOutputTransforms] at h
  | succ m ih =>
    obtain ⟨n, rfl⟩ : ∃ n', n = n' + 1 := ⟨n - 1, by omega⟩
    rw [findGatewayBranchOutputTransforms, bind_eq_done] at h ⊢
    obtain ⟨outbound, hout, h⟩ := h
    exact ⟨outbound, hout, collectTargets_mono (fun e a b hb => ih (by omega) hb) h⟩

end Walk

/-! ### All joins -/

/-- The tables have the same elements with the same flows. -/
def SameFlows (T T' : GoMap Element) : Prop :=
  ∀ x, (T.lookup x).map (fun e => (e.id, e.outbound)) =
    (T'.lookup x).map fun e => (e.id, e.outbound)

variable {T' : GoMap Element} {T : GoMap Element}

section

variable (h : SameFlows T T')
include h

theorem SameFlows.lookup (he : T.lookup x = some e) :
    ∃ e', T'.lookup x = some e' ∧ e'.id = e.id ∧ e'.outbound = e.outbound := by
  have hx := h x
  rw [he, Option.map_some, eq_comm, Option.map_eq_some_iff] at hx
  obtain ⟨e', he', heq⟩ := hx
  exact ⟨e', he', congrArg Prod.fst heq, congrArg Prod.snd heq⟩

theorem SameFlows.symm : SameFlows T' T :=
  fun x => (h x).symm

theorem SameFlows.indexed (hT : Indexed T) : Indexed T' := by
  intro x e he
  obtain ⟨e', he', hid, -⟩ := h.symm.lookup he
  rw [← hid]
  exact hT x e' he'

variable {j : String}

theorem SameFlows.leadsTo (hleads : LeadsTo T d j) : LeadsTo T' d j := by
  have hwalks : ∀ x y, Walks T' j x y → Walks T j x y := by
    rintro x y ⟨e, he, hmem, hne⟩
    obtain ⟨e', he', -, hout⟩ := h.symm.lookup he
    refine ⟨e', he', ?_, hne⟩
    rwa [Element.targetIds, hout, ← Element.targetIds]
  constructor
  · intro x hreach
    obtain ⟨e, outbound, he, hout⟩ := hleads.flows x (ReflTransGen.mono hwalks _ _ hreach)
    obtain ⟨e', he', -, hout'⟩ := h.lookup he
    exact ⟨e', outbound, he', hout'.trans hout⟩
  · intro x hreach hcycle
    exact hleads.acyclic x (ReflTransGen.mono hwalks _ _ hreach) (TransGen.mono hwalks _ _ hcycle)

variable {a b : GoMap String}

theorem SameFlows.exists_collectTargets
    (hfind : ∀ e e' a b, e'.outbound = e.outbound → find e a = .done b →
      ∀ a', ∃ b', find' e' a' = .done b')
    (hdone : collectTargets T j find targets a = .done b) (a' : GoMap String) :
    ∃ b', collectTargets T' j find' targets a' = .done b' := by
  induction targets generalizing a a' with
  | nil => exact ⟨a', rfl⟩
  | cons t targets ih =>
    rw [collectTargets, bind_eq_done] at hdone
    obtain ⟨e, he, hdone⟩ := hdone
    obtain ⟨e', he', hid, hout⟩ := h.lookup (deref_eq_done.1 he)
    rw [collectTargets, he', deref_some, done_bind, hid]
    dsimp only at hdone ⊢
    by_cases hj : e.id = j
    · rw [if_pos hj]
      exact ⟨_, rfl⟩
    · rw [if_neg hj, bind_eq_done] at hdone
      obtain ⟨c, hc, hrest⟩ := hdone
      obtain ⟨c', hc'⟩ := hfind e e' _ c hout hc (addTransforms a' e'.outputTransform)
      rw [if_neg hj, hc', done_bind]
      exact ih hrest c'

/-- Whether a walk ends depends on the flows only. -/
theorem SameFlows.exists_find {m : Nat}
    {e' : Element} (hout : e'.outbound = e.outbound)
    (hdone : findGatewayBranchOutputTransforms T j m e a = .done b) (a' : GoMap String) :
    ∃ b', findGatewayBranchOutputTransforms T' j m e' a' = .done b' := by
  induction m generalizing e e' a b a' with
  | zero => simp [findGatewayBranchOutputTransforms] at hdone
  | succ m ih =>
    rw [findGatewayBranchOutputTransforms, bind_eq_done] at hdone
    obtain ⟨outbound, houtbound, hdone⟩ := hdone
    rw [findGatewayBranchOutputTransforms, hout, houtbound, done_bind]
    exact h.exists_collectTargets (fun _ _ _ _ hout' hdone' a' => ih hout' hdone' a') hdone a'

end

/-- The element with an id is a join, and names a split. -/
def JoinOf (T : GoMap Element) (j d : String) : Prop :=
  ∃ c g, T.lookup j = some c ∧ c.type = .gateway ∧ c.gateway = some g ∧
    g.direction = .convergent ∧ g.reciprocalId = d

section Joins

variable {T : GoMap Element} {order : MapOrder} {joins : GoMap String}

/-- An entry of the map of joins is a join under the id of its split. -/
theorem joinOf_of_lookup (hT : Indexed T) (h : (order.entries T).foldlM enterJoin ∅ = .done joins)
    (hd : joins.lookup d = some j) : JoinOf T j d := by
  refine foldlM_inv (fun joins => ∀ d j, joins.lookup d = some j → JoinOf T j d)
    (fun e he joins joins' hjoins hround => ?_) (by simp) h d j hd
  have hlookup : T.lookup e.1 = some e.2 :=
    mem_lookup_iff.2 ((order.perm T).mem_iff.1 he)
  unfold enterJoin at hround
  split at hround
  · rename_i htype
    rw [bind_eq_done] at hround
    obtain ⟨g, hg, hround⟩ := hround
    rw [deref_eq_done] at hg
    split at hround
    · rename_i hdir
      obtain rfl : joins.insert g.reciprocalId e.2.id = joins' := by simpa using hround
      intro d' j' hd'
      by_cases hkey : d' = g.reciprocalId
      · rw [hkey, lookup_insert, Option.some.injEq] at hd'
        subst hd'
        rw [hT _ _ hlookup]
        exact ⟨e.2, g, hlookup, htype, hg, hdir, hkey.symm⟩
      · rw [lookup_insert_ne hkey] at hd'
        exact hjoins d' j' hd'
    · obtain rfl : joins = joins' := by simpa using hround
      exact hjoins
  · obtain rfl : joins = joins' := by simpa using hround
    exact hjoins

/-- The map of joins is found. -/
theorem exists_joins (order : MapOrder) (hspec : ∀ x e, T.lookup x = some e → e.type = .gateway →
    ∃ g, e.gateway = some g) : ∃ joins, (order.entries T).foldlM enterJoin ∅ = .done joins := by
  refine exists_foldlM (fun e he joins => ?_) ∅
  have hlookup : T.lookup e.1 = some e.2 :=
    mem_lookup_iff.2 ((order.perm T).mem_iff.1 he)
  unfold enterJoin
  split
  · rename_i htype
    obtain ⟨g, hg⟩ := hspec _ _ hlookup htype
    rw [hg, deref_some, done_bind]
    split
    · exact ⟨_, rfl⟩
    · exact ⟨_, rfl⟩
  · exact ⟨_, rfl⟩

/-- A join that comes last is kept. -/
theorem lookup_joins_last (hT : Indexed T) (hjoin : JoinOf T j d)
    (h : ((MapOrder.last j).entries T).foldlM enterJoin ∅ = .done joins) :
    joins.lookup d = some j := by
  obtain ⟨c, g, hc, htype, hg, hdir, rfl⟩ := hjoin
  -- the last entry of the range is the join
  obtain ⟨before, hentries⟩ : ∃ before, (MapOrder.last j).entries T = before ++ [⟨j, c⟩] := by
    have hmem : (⟨j, c⟩ : Sigma fun _ : String => Element) ∈
        T.entries.filter fun e => ¬(e.1 ≠ j) :=
      mem_filter.2 ⟨mem_lookup_iff.1 hc, by simp⟩
    rcases eq_nil_or_concat (T.entries.filter fun e => ¬(e.1 ≠ j)) with hnil | ⟨l, e, hl⟩
    · rw [hnil] at hmem
      simp at hmem
    · rw [concat_eq_append] at hl
      obtain ⟨he, hkey⟩ : e ∈ T.entries ∧ e.1 = j := by
        have he : e ∈ T.entries.filter fun e => ¬(e.1 ≠ j) := by
          rw [hl]
          simp
        simpa using mem_filter.1 he
      have hlookup : T.lookup j = some e.2 := by
        rw [← hkey]
        exact mem_lookup_iff.2 he
      obtain rfl : c = e.2 := Option.mem_unique hc hlookup
      refine ⟨T.entries.filter (fun e => e.1 ≠ j) ++ l, ?_⟩
      have hsplit : (MapOrder.last j).entries T = T.entries.filter (fun e => e.1 ≠ j) ++
          T.entries.filter fun e => ¬(e.1 ≠ j) := rfl
      rw [hsplit, hl, append_assoc, ← hkey]
  rw [hentries, foldlM_append, bind_eq_done] at h
  obtain ⟨joins₀, -, h⟩ := h
  have hround : enterJoin joins₀ ⟨j, c⟩ = .done (joins₀.insert g.reciprocalId c.id) := by
    simp [enterJoin, htype, hg, hdir]
  rw [foldlM_cons, hround, done_bind, foldlM_nil, pure_eq,
    Parsed.done.injEq] at h
  rw [← h, lookup_insert, hT _ _ hc]

/-- The handler ends, and keeps the flows. -/
def KeepsFlows {σ : Type} (T : GoMap Element) (elesById : σ → GoMap Element)
    (handler : GoMap String → String → σ → Parsed σ) : Prop :=
  ∀ transform j s, SameFlows (elesById s) T → (∃ e, T.lookup j = some e) →
    ∃ s', handler transform j s = .done s' ∧ SameFlows (elesById s') T

theorem keepsFlows_populate : KeepsFlows T id populateConvergentGatewayOutputTransforms := by
  rintro transform j s hsame ⟨e, he⟩
  obtain ⟨e', he', hid, hout⟩ := hsame.symm.lookup he
  have hlookup : s.lookup j = some e' := he'
  refine ⟨s.insert j { e' with outputTransform := transform }, ?_, fun x => ?_⟩
  · rw [populateConvergentGatewayOutputTransforms, hlookup]
    rfl
  · by_cases hx : x = j
    · subst hx
      rw [id_eq, lookup_insert, he]
      simp only [Option.map_some, hid, hout]
    · rw [id_eq, lookup_insert_ne hx]
      exact hsame x

theorem keepsFlows_defineKeys : KeepsFlows T (fun _ => T) defineKeys :=
  fun transform _ s hsame _ => ⟨s ++ transform.keys, rfl, hsame⟩

/-- The transforms of all joins are found if every split leads to its join. -/
theorem exists_findConvergentGatewayOutputTransforms {σ : Type} {elesById : σ → GoMap Element}
    {handler : GoMap String → String → σ → Parsed σ} (hT : Indexed T)
    (hspec : ∀ x e, T.lookup x = some e → e.type = .gateway → ∃ g, e.gateway = some g)
    (hkeeps : KeepsFlows T elesById handler) {s : σ} (hs : elesById s = T)
    (hleads : ∀ j d, JoinOf T j d → LeadsTo T d j) (order : MapOrder) :
    ∃ fuel s', findConvergentGatewayOutputTransforms order elesById handler fuel s = .done s' := by
  obtain ⟨joins, hjoins⟩ := exists_joins order hspec
  -- the fuel for all walks
  obtain ⟨fuel, hfuel⟩ := exists_fuel
    (P := fun n (join : Sigma fun _ : String => String) => ∃ e r, T.lookup join.1 = some e ∧
      findGatewayBranchOutputTransforms T join.2 n e ∅ = .done r)
    (fun m n join hle ⟨e, r, he, hr⟩ => ⟨e, r, he, findGatewayBranchOutputTransforms_mono hle hr⟩)
    (fun join (hjoin : join ∈ order.entries joins) => by
      have hlookup : joins.lookup join.1 = some join.2 :=
        mem_lookup_iff.2 ((order.perm joins).mem_iff.1 hjoin)
      have hof := joinOf_of_lookup hT hjoins hlookup
      have ⟨c, _, hc, _⟩ := hof
      obtain ⟨e, n, r, he, hr⟩ := (leadsTo_iff hT hc).1 (hleads _ _ hof)
      exact ⟨n, e, r, he, hr⟩)
  have hfold : ∃ s', (order.entries joins).foldlM (handleJoin elesById handler fuel) s = .done s' ∧
      SameFlows (elesById s') T := by
    refine exists_foldlM_inv (fun s => SameFlows (elesById s) T)
      (fun join hjoin s hsame => ?_) (by rw [hs]; exact fun _ => rfl)
    have hlookup : joins.lookup join.1 = some join.2 :=
      mem_lookup_iff.2 ((order.perm joins).mem_iff.1 hjoin)
    obtain ⟨c, -, hc, -⟩ := joinOf_of_lookup hT hjoins hlookup
    obtain ⟨e, r, he, hr⟩ := hfuel join hjoin
    obtain ⟨e', he', -, hout⟩ := hsame.symm.lookup he
    obtain ⟨r', hr'⟩ := hsame.symm.exists_find hout hr ∅
    obtain ⟨s', hs', hsame'⟩ := hkeeps r' join.2 s hsame ⟨c, hc⟩
    refine ⟨s', ?_, hsame'⟩
    rw [handleJoin, he', deref_some, done_bind, hr', done_bind, hs']
  obtain ⟨s', hs', -⟩ := hfold
  refine ⟨fuel, s', ?_⟩
  rw [findConvergentGatewayOutputTransforms, hs, hjoins, done_bind, hs']

/-- Every split leads to its join if the transforms are found in every order. -/
theorem leadsTo_of_findConvergentGatewayOutputTransforms (hT : Indexed T)
    (h : ∀ order, ∃ fuel T', findConvergentGatewayOutputTransforms order id
      populateConvergentGatewayOutputTransforms fuel T = .done T')
    (hjoin : JoinOf T j d) : LeadsTo T d j := by
  -- the range comes to this join last, so that it is the one that is kept for the split
  obtain ⟨fuel, T', hdone⟩ := h (MapOrder.last j)
  rw [findConvergentGatewayOutputTransforms, bind_eq_done] at hdone
  obtain ⟨joins, hjoins, hfold⟩ := hdone
  have hlookup := lookup_joins_last hT hjoin hjoins
  have hmem : (⟨d, j⟩ : Sigma fun _ : String => String) ∈ (MapOrder.last j).entries joins :=
    ((MapOrder.last j).perm joins).mem_iff.2 (mem_lookup_iff.1 hlookup)
  obtain ⟨c, -, hc, -⟩ := hjoin
  have hkept : ∀ join ∈ (MapOrder.last j).entries joins, ∀ S S', SameFlows S T →
      handleJoin id populateConvergentGatewayOutputTransforms fuel S join = .done S' →
      SameFlows S' T := by
    intro join hjoin S S' hsame hround
    have hlookup' : joins.lookup join.1 = some join.2 :=
      mem_lookup_iff.2 (((MapOrder.last j).perm joins).mem_iff.1 hjoin)
    obtain ⟨c', -, hc', -⟩ := joinOf_of_lookup hT hjoins hlookup'
    rw [handleJoin, bind_eq_done] at hround
    obtain ⟨e, -, hround⟩ := hround
    rw [bind_eq_done] at hround
    obtain ⟨r, -, hround⟩ := hround
    obtain ⟨S'', hS'', hsame''⟩ := keepsFlows_populate r join.2 S hsame ⟨c', hc'⟩
    rw [hround, Parsed.done.injEq] at hS''
    exact hS'' ▸ hsame''
  obtain ⟨S, S', hsame, hround⟩ :=
    foldlM_each_inv (fun S => SameFlows S T) hkept (fun _ => rfl) hfold hmem
  rw [handleJoin, bind_eq_done] at hround
  obtain ⟨e, he, hround⟩ := hround
  rw [bind_eq_done] at hround
  obtain ⟨r, hr, -⟩ := hround
  obtain ⟨cS, hcS, -⟩ := hsame.symm.lookup hc
  exact hsame.leadsTo ((leadsTo_iff (hsame.symm.indexed hT) hcS).2
    ⟨e, fuel, r, deref_eq_done.1 he, hr⟩)

end Joins

/-- **The output transforms of the joins of a process are found**, by the parser and by the variable
check, in whatever order the runtime ranges over the elements and the joins. -/
def TransformsFound (p : Process) : Prop :=
  (∀ order, ∃ fuel elesById, findConvergentGatewayOutputTransforms order id
      populateConvergentGatewayOutputTransforms fuel (processTable p) = .done elesById) ∧
    ∀ order outputVars, ∃ fuel outputVars', findConvergentGatewayOutputTransforms order
      (fun _ => processTable p) defineKeys fuel outputVars = .done outputVars'

/-- **The output transforms are found exactly when every split leads to its join.** -/
theorem findConvergentGatewayOutputTransforms_iff (p : Process) (hspec : p.GatewaysSpecified) :
    TransformsFound p ↔ ∀ j d, JoinOf (processTable p) j d → LeadsTo (processTable p) d j := by
  have hT := indexed_processTable p
  have hspec' : ∀ x e, (processTable p).lookup x = some e → e.type = .gateway →
      ∃ g, e.gateway = some g := by
    intro x e he
    rw [lookup_processTable_eq, Option.bind_eq_some_iff] at he
    obtain ⟨i, -, hi⟩ := he
    exact hspec e (List.mem_of_getElem? hi)
  constructor
  · intro h j d hjoin
    exact leadsTo_of_findConvergentGatewayOutputTransforms hT h.1 hjoin
  · intro hleads
    exact ⟨exists_findConvergentGatewayOutputTransforms hT hspec' keepsFlows_populate rfl hleads,
      fun order outputVars => exists_findConvergentGatewayOutputTransforms hT hspec'
        keepsFlows_defineKeys rfl hleads order⟩

theorem findConvergentGatewayOutputTransforms_iff_diamond : TransformsFound diamondTagged ↔
      ∀ j d, JoinOf (processTable diamondTagged) j d → LeadsTo (processTable diamondTagged) d j :=
  findConvergentGatewayOutputTransforms_iff diamondTagged (gatewaysSpecified_of_all rfl)

/-- Three tasks in parallel, one of which leads to an end of its own. -/
def strayEnd : Process :=
  { id := "strayEnd"
    elements := [startTo "start" "fork", gatewayTo .parallel "fork" ["a", "b", "c"],
      taskTo "a" "join", taskTo "b" "join", taskTo "c" "stop", gatewayTo .parallel "join" ["end"],
      endAt "end", endAt "stop"] }

/-- The three tasks, tagged. -/
def strayEndTagged : Process :=
  { strayEnd with
    elements := [startTo "start" "fork",
      gatewayPaired .parallel .divergent "fork" "join" ["a", "b", "c"], taskTo "a" "join",
      taskTo "b" "join", taskTo "c" "stop",
      gatewayPaired .parallel .convergent "join" "fork" ["end"], endAt "end", endAt "stop"] }

/-- The tagger and the linter accept a branch that ends before the join, and the walk panics at the
end event. -/
theorem strayEnd_panics : tagWorkflow 8 (workflowOf strayEnd) = .done (workflowOf strayEndTagged) ∧
      lint (workflowOf strayEndTagged) true = some ([], none) ∧
      (∀ e ∈ strayEndTagged.elements, e.kind = some (.parallel, .convergent) →
        e.gateway.map (·.reciprocalId) = some "fork") ∧
      findConvergentGatewayOutputTransforms .listed id populateConvergentGatewayOutputTransforms 8
        (processTable strayEndTagged) = .panics ∧ ¬TransformsFound strayEndTagged := by
  refine ⟨rfl, rfl, by decide, rfl, fun h => ?_⟩
  have hjoin : JoinOf (processTable strayEndTagged) "join" "fork" :=
    ⟨_, _, rfl, rfl, rfl, rfl, rfl⟩
  have hleads := leadsTo_of_findConvergentGatewayOutputTransforms
    (indexed_processTable strayEndTagged) h.1 hjoin
  have hfirst : Walks (processTable strayEndTagged) "join" "fork" "c" :=
    ⟨_, rfl, by decide, by decide⟩
  have hsecond : Walks (processTable strayEndTagged) "join" "c" "stop" :=
    ⟨_, rfl, by decide, by decide⟩
  obtain ⟨e, outbound, he, hout⟩ := hleads.flows "stop" ((ReflTransGen.single hfirst).tail hsecond)
  obtain rfl : endAt "stop" = e := Option.some.inj he
  exact absurd hout nofun

end SharWorkflow
