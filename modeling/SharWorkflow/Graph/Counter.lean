import Mathlib.Order.WellFounded
import Mathlib.Order.Interval.Finset.Nat
import Mathlib.Data.Fintype.Pigeonhole
import Mathlib.Data.Set.Finite.Basic
import Mathlib.Logic.Relation

/-!
# Walks in a finite graph

A search that follows every step from a node and remembers nothing comes to an end exactly when no
walk from that node is infinite, that is when the node is **accessible**.

The nodes here carry a counter that a step may raise or lower, and a step that is possible with a
counter is possible with any larger one (`Liftable`), as for a recursion that matches brackets and
may only refuse to go on when it has counted none. Over finitely many nodes such a walk can be
infinite only if it comes back to a node with a counter that is no smaller (`Pumps`):
`acc_iff_not_pumps`. Without a counter this is the absence of cycles: `acc_iff_acyclic`.

A search that remembers where it has been ends on every finite graph: `unvisited` is its measure.
-/

namespace Graph

open Relation List

variable {α : Type*}

/-! ### Walks with a counter -/

section Counter

variable {R : α × ℕ → α × ℕ → Prop}

/-- A step that is possible with a counter is possible with a larger one. -/
def Liftable (R : α × ℕ → α × ℕ → Prop) : Prop :=
  ∀ x s y t, R (x, s) (y, t) → ∀ k, R (x, s + k) (y, t + k)

/-- A walk from `c` comes back to a node, and the counter is then no smaller. -/
def Pumps (R : α × ℕ → α × ℕ → Prop) (c : α × ℕ) : Prop :=
  ∃ x s t, ReflTransGen R c (x, s) ∧ TransGen R (x, s) (x, t) ∧ s ≤ t

theorem Liftable.transGen (hR : Liftable R) {x y : α} {s t : ℕ}
    (h : TransGen R (x, s) (y, t)) (k : ℕ) : TransGen R (x, s + k) (y, t + k) :=
  TransGen.lift (fun c : α × ℕ => (c.1, c.2 + k)) (fun _ _ hstep => hR _ _ _ _ hstep k) _ _ h

/-- A walk that has come back can be walked again, with the counter raised by what it has gained. -/
theorem Liftable.not_acc_of_transGen (hR : Liftable R) {x : α} {s t : ℕ}
    (h : TransGen R (x, s) (x, t)) (hle : s ≤ t) : ¬Acc (flip (TransGen R)) (x, s) := by
  intro hacc
  -- along the walk the counter at `x` is `s` and something
  suffices hall : ∀ c, Acc (flip (TransGen R)) c → ∀ k, c ≠ (x, s + k) from hall _ hacc 0 rfl
  intro c hc
  induction hc with
  | intro c _ ih =>
    rintro k rfl
    refine ih (x, t + k) (hR.transGen h k) (t - s + k) ?_
    have hcounter : t + k = s + (t - s + k) := by omega
    rw [hcounter]

theorem acc_flip_transGen {c : α × ℕ} : Acc (flip (TransGen R)) c ↔ Acc (flip R) c := by
  rw [← acc_transGen_iff (r := flip R)]
  have hflip : flip (TransGen R) = TransGen (flip R) := by
    funext a b
    exact propext transGen_swap
  rw [hflip]

/-- An infinite walk over finitely many nodes comes back to one of them without a loss. -/
theorem pumps_of_not_acc {c : α × ℕ} (hfin : {x | ∃ s, ReflTransGen R c (x, s)}.Finite)
    (h : ¬Acc (flip R) c) : Pumps R c := by
  obtain ⟨f, hzero, hstep⟩ := not_acc_iff_exists_descending_chain.1 h
  have hreach : ∀ n, ReflTransGen R c (f n) := by
    intro n
    induction n with
    | zero => rw [hzero]
    | succ n ih => exact ih.tail (hstep n)
  have hwalk : ∀ {m n}, m < n → TransGen R (f m) (f n) := by
    intro m n hlt
    induction n, hlt using Nat.le_induction with
    | base => exact .single (hstep m)
    | succ n _ ih => exact ih.tail (hstep n)
  -- one node is met infinitely often
  have : Finite {x | ∃ s, ReflTransGen R c (x, s)} := hfin
  obtain ⟨x, hx⟩ := Finite.exists_infinite_fiber
    fun n => (⟨(f n).1, (f n).2, hreach n⟩ : {x | ∃ s, ReflTransGen R c (x, s)})
  set visits : Set ℕ := {n | (f n).1 = x.1} with hvisits
  have hinf : visits.Infinite := by
    have hfiber := Set.infinite_coe_iff.1 hx
    refine hfiber.mono fun n hn => ?_
    exact congrArg Subtype.val hn
  -- the first visit with the smallest counter, and any later one
  obtain ⟨m, hm, hmin⟩ := (measure fun n => (f n).2).wf.has_min visits hinf.nonempty
  obtain ⟨n, hn, hlt⟩ := hinf.exists_gt m
  refine ⟨x.1, (f m).2, (f n).2, ?_, ?_, Nat.le_of_not_lt (hmin n hn)⟩
  · have hnode : f m = (x.1, (f m).2) := Prod.ext hm rfl
    rw [← hnode]
    exact hreach m
  · have hfirst : f m = (x.1, (f m).2) := Prod.ext hm rfl
    have hlast : f n = (x.1, (f n).2) := Prod.ext hn rfl
    rw [← hfirst, ← hlast]
    exact hwalk hlt

/-- **Every walk ends unless one of them pumps.** -/
theorem acc_iff_not_pumps (hR : Liftable R) {c : α × ℕ}
    (hfin : {x | ∃ s, ReflTransGen R c (x, s)}.Finite) : Acc (flip R) c ↔ ¬Pumps R c := by
  constructor
  · rintro hacc ⟨x, s, t, hreach, hback, hle⟩
    have hall : ∀ d, ReflTransGen R c d → Acc (flip R) d := by
      intro d hd
      induction hd with
      | refl => exact hacc
      | tail _ hstep ih => exact ih.inv hstep
    exact hR.not_acc_of_transGen hback hle (acc_flip_transGen.2 (hall _ hreach))
  · intro hno
    by_contra hacc
    exact hno (pumps_of_not_acc hfin hacc)

end Counter

/-! ### Walks without a counter -/

/-- **Every walk ends unless one of them comes back.** -/
theorem acc_iff_acyclic {R : α → α → Prop} {x : α} (hfin : {y | ReflTransGen R x y}.Finite) :
    Acc (flip R) x ↔ ¬∃ y, ReflTransGen R x y ∧ TransGen R y y := by
  set R' : α × ℕ → α × ℕ → Prop := fun c d => R c.1 d.1 ∧ c.2 = d.2 with hR'
  have hlift : Liftable R' := by
    intro y s z t hstep k
    exact ⟨hstep.1, congrArg (· + k) hstep.2⟩
  have hpair : ∀ {y z}, R y z → R' (y, 0) (z, 0) := fun hstep => ⟨hstep, rfl⟩
  have hfst : ∀ c d, R' c d → R c.1 d.1 := fun c d hstep => hstep.1
  have hfin' : {y | ∃ s, ReflTransGen R' (x, 0) (y, s)}.Finite := by
    refine hfin.subset ?_
    rintro y ⟨s, hreach⟩
    exact hreach.lift Prod.fst hfst
  have hacc : Acc (flip R) x ↔ Acc (flip R') (x, 0) := by
    constructor
    · intro h
      clear hfin hfin'
      induction h with
      | intro x _ ih =>
        refine ⟨_, ?_⟩
        rintro ⟨y, s⟩ ⟨hstep, hs⟩
        obtain rfl : 0 = s := hs
        exact ih y hstep
    · intro h
      exact Subrelation.accessible (fun hstep => hpair hstep)
        (InvImage.accessible (fun y => (y, 0)) h)
  rw [hacc, acc_iff_not_pumps hlift hfin', not_iff_not]
  constructor
  · rintro ⟨y, s, t, hreach, hback, -⟩
    exact ⟨y, hreach.lift Prod.fst hfst, hback.lift Prod.fst hfst⟩
  · rintro ⟨y, hreach, hback⟩
    exact ⟨y, 0, 0, hreach.lift (·, 0) fun _ _ => hpair, hback.lift (·, 0) fun _ _ => hpair,
      le_rfl⟩

/-! ### Walks that remember -/

section Visited

variable {α ρ : Type} [DecidableEq α] {nodes visited visited' : List α} {x : α}

/-- The number of nodes that a walk has not been to. -/
def unvisited (nodes visited : List α) : ℕ := (nodes.filter (· ∉ visited)).length

theorem unvisited_mono (h : visited ⊆ visited') :
    unvisited nodes visited' ≤ unvisited nodes visited := by
  refine (monotone_filter_right _ fun x hx => ?_).length_le
  rw [decide_eq_true_eq] at hx ⊢
  exact fun hmem => hx (h hmem)

theorem unvisited_cons_lt (hx : x ∈ nodes) (hnew : x ∉ visited) :
    unvisited nodes (x :: visited) < unvisited nodes visited := by
  have hmem : x ∈ nodes.filter (· ∉ visited) := mem_filter.2 ⟨hx, by simpa using hnew⟩
  have hfewer : nodes.filter (· ∉ x :: visited) =
      (nodes.filter (· ∉ visited)).filter (· ≠ x) := by
    rw [filter_filter]
    refine filter_congr fun y _ => ?_
    simp [not_or]
  rw [unvisited, hfewer]
  exact length_filter_lt_length_iff_exists.2 ⟨x, hmem, by simp⟩

/-- A search has come to a result within the depth `n`: it is as it should be, and a search that may
go deeper comes to the same. -/
def Concludes (f : ℕ → ρ) (n : ℕ) (good : ρ → Prop) : Prop :=
  good (f n) ∧ ∀ m, n ≤ m → f m = f n

/-- A search that one more level does not change, once it has a result, concludes. -/
theorem concludes_of_stable {f : ℕ → ρ} {n : ℕ} {good : ρ → Prop} (hgood : good (f n))
    (hstable : ∀ m, good (f m) → f (m + 1) = f m) : Concludes f n good := by
  refine ⟨hgood, fun m hm => ?_⟩
  induction m, hm using Nat.le_induction with
  | base => rfl
  | succ m _ ih => rw [hstable m (ih ▸ hgood), ih]

end Visited

end Graph
