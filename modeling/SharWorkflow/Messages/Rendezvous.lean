import Mathlib.Data.Set.Insert
import Mathlib.Logic.Function.Basic

/-!
# A rendezvous through a shared entry

The idea behind a message exchange, without its storage. One sender and several receivers add
themselves to a shared entry, read it back, and act on what they have seen: the sender serves the
receivers that are there, a receiver serves itself if the sender is there. A party that has seen
everybody removes the entry when it has done its part.

Parties are the elements of `Option ι`: `none` is the sender, `some i` a receiver. What a party has
seen is a set of parties.

* `Action`, `Step`, `Reachable`: the steps of the parties, as far as `allowed` permits them.
* `Inv`: no receiver is forgotten as long as the entry is not removed between the arrival of
  another party and the moment it reads the entry back.
* `Once`: no receiver is served twice if in addition the sender and a receiver are never both
  between these two points.
-/

namespace Rendezvous

/-- How far a party has come. A party is in its **window** from `entered` to `written`. -/
inductive Stage (ι : Type)
  | idle
  | entered
  /-- the party has found an entry to add itself to -/
  | found
  | written
  /-- the party has read the entry back, and has still to serve the receivers in `todo` -/
  | delivering (seen : Set (Option ι)) (todo : Set ι)
  /-- the party has seen everybody and has removed the entry -/
  | deleted

namespace Stage

variable {ι : Type}

/-- The party has entered and has not read the entry back. -/
def Window : Stage ι → Prop
  | entered => True
  | found => True
  | written => True
  | _ => False

/-- The party has added itself to the entry. -/
def Wrote : Stage ι → Prop
  | written => True
  | delivering _ _ => True
  | deleted => True
  | _ => False

/-- What the party has seen in the entry. -/
def seen : Stage ι → Option (Set (Option ι))
  | delivering e _ => some e
  | deleted => some Set.univ
  | _ => none

/-- The receivers the party has still to serve. -/
def todo : Stage ι → Set ι
  | delivering _ todo => todo
  | _ => ∅

/-- The party has nothing left to do. -/
def Settled : Stage ι → Prop
  | delivering e todo => todo = ∅ ∧ e ≠ Set.univ
  | deleted => True
  | _ => False

end Stage

/-- The stages of the parties, who is in the entry, and how often each receiver was served. -/
structure State (ι : Type) where
  stage : Option ι → Stage ι
  entry : Option (Set (Option ι))
  completions : ι → Nat

/-- The steps of a party. -/
inductive Action (ι : Type)
  | enter
  | create
  | find
  | update
  | reload
  | complete (i : ι)
  | delete

/-- The receivers that the party `p` serves when it has seen `e`. -/
def duties {ι : Type} (p : Option ι) (e : Set (Option ι)) : Set ι :=
  { i | p = none ∧ some i ∈ e ∨ p = some i ∧ none ∈ e }

section

variable {ι : Type} [DecidableEq ι]

/-- The party `p` moves on. -/
def State.move (A : State ι) (p : Option ι) (stage : Stage ι) : State ι :=
  { A with stage := Function.update A.stage p stage }

@[simp]
theorem State.move_stage_self (A : State ι) (p : Option ι) (stage : Stage ι) :
    (A.move p stage).stage p = stage := by
  simp [move]

theorem State.move_stage_of_ne (A : State ι) {p q : Option ι} (stage : Stage ι) (h : q ≠ p) :
    (A.move p stage).stage q = A.stage q := by
  simp [move, h]

@[simp]
theorem State.move_entry (A : State ι) (p : Option ι) (stage : Stage ι) :
    (A.move p stage).entry = A.entry := rfl

@[simp]
theorem State.move_completions (A : State ι) (p : Option ι) (stage : Stage ι) :
    (A.move p stage).completions = A.completions := rfl

/-- What does not change for the party that moves does not change for anybody. -/
theorem State.move_same {β : Sort*} (f : Stage ι → β) {A : State ι} {p : Option ι}
    {before : Stage ι} (stage : Stage ι) (hp : A.stage p = before) (h : f stage = f before)
    (q : Option ι) : f ((A.move p stage).stage q) = f (A.stage q) := by
  by_cases hq : q = p
  · rw [hq, A.move_stage_self, h, hp]
  · rw [A.move_stage_of_ne stage hq]

/-- A party that is not where the move leads was there before. -/
theorem State.of_move {A : State ι} {p q : Option ι} {stage old : Stage ι}
    (hq : (A.move p stage).stage q = old) (hne : stage ≠ old) : A.stage q = old := by
  by_cases hqp : q = p
  · subst hqp
    exact absurd ((A.move_stage_self q stage).symm.trans hq) hne
  · rwa [A.move_stage_of_ne stage hqp] at hq

/-- **One step** of the party `p`. -/
inductive Step : State ι → Option ι → Action ι → State ι → Prop
  | enter {A : State ι} {p : Option ι} (stage : A.stage p = .idle) :
      Step A p .enter (A.move p .entered)
  | create {A : State ι} {p : Option ι} (stage : A.stage p = .entered) (absent : A.entry = none) :
      Step A p .create { A.move p .written with entry := some {p} }
  | find {A : State ι} {p : Option ι} (stage : A.stage p = .entered) (present : A.entry ≠ none) :
      Step A p .find (A.move p .found)
  | update {A : State ι} {p : Option ι} {e : Set (Option ι)} (stage : A.stage p = .found)
      (present : A.entry = some e) :
      Step A p .update { A.move p .written with entry := some (insert p e) }
  | reload {A : State ι} {p : Option ι} {e : Set (Option ι)} (stage : A.stage p = .written)
      (present : A.entry = some e) :
      Step A p .reload (A.move p (.delivering e (duties p e)))
  | complete {A : State ι} {p : Option ι} {e : Set (Option ι)} {todo : Set ι} {i : ι}
      (stage : A.stage p = .delivering e todo) (due : i ∈ todo) :
      Step A p (.complete i) { A.move p (.delivering e (todo \ {i})) with
        completions := Function.update A.completions i (A.completions i + 1) }
  | delete {A : State ι} {p : Option ι} (stage : A.stage p = .delivering Set.univ ∅) :
      Step A p .delete { A.move p .deleted with entry := none }

/-- A party comes into its window only when it enters. -/
theorem Step.window {A A' : State ι} {p q : Option ι} {a : Action ι} (h : Step A p a A')
    (ha : a ≠ .enter) (hq : (A'.stage q).Window) : (A.stage q).Window := by
  by_cases hqp : q = p
  · subst hqp
    cases h with
    | enter _ => exact absurd rfl ha
    | complete _ _ => simp [State.move, Stage.Window] at hq
    | delete _ => simp [State.move, Stage.Window] at hq
    | _ stage _ => rw [stage]; trivial
  · cases h <;> simpa [State.move, hqp] using hq

/-- A party is idle until it enters. -/
theorem Step.ne_idle {A A' : State ι} {p q : Option ι} {a : Action ι} (h : Step A p a A')
    (ha : a ≠ .enter) (hq : A'.stage q ≠ .idle) : A.stage q ≠ .idle := by
  by_cases hqp : q = p
  · subst hqp
    intro hidle
    cases h with
    | enter _ => exact ha rfl
    | _ stage => rw [hidle] at stage; cases stage
  · cases h <;> simpa [State.move, hqp] using hq

/-- Nobody has come, and nobody has been served. -/
def State.init : State ι := ⟨fun _ => .idle, none, fun _ => 0⟩

/-- The states that allowed steps lead to. -/
inductive Reachable (allowed : State ι → Option ι → Action ι → Prop) : State ι → Prop
  | init : Reachable allowed .init
  | step {A A' : State ι} {p : Option ι} {a : Action ι} (reach : Reachable allowed A)
      (step : Step A p a A') (permitted : allowed A p a) : Reachable allowed A'

/-- The entry is removed only while no other party is in its window. -/
def RemovesAlone (A : State ι) (p : Option ι) : Action ι → Prop
  | .delete => ∀ q, q ≠ p → ¬ (A.stage q).Window
  | _ => True

/-- The sender and a receiver are never both in their windows. -/
def EntersApart (A : State ι) (p : Option ι) : Action ι → Prop
  | .enter =>
    match p with
    | none => ∀ i, ¬ (A.stage (some i)).Window
    | some _ => ¬ (A.stage none).Window
  | _ => True

/-! ### Nobody is forgotten -/

variable {e : Set (Option ι)} {stage : Stage ι}

omit [DecidableEq ι] in
theorem Stage.wrote_of_seen (h : stage.seen = some e) : stage.Wrote := by
  cases stage <;> trivial

omit [DecidableEq ι] in
theorem Stage.seen_of_wrote (h : stage.Wrote) (hwindow : ¬ stage.Window) : stage.seen ≠ none := by
  cases stage <;> first | exact Option.some_ne_none _ | exact h.elim | exact absurd trivial hwindow

omit [DecidableEq ι] in
theorem Stage.of_not_wrote (h : ¬ stage.Wrote) : stage.seen = none ∧ stage.todo = ∅ := by
  cases stage <;> first | exact ⟨rfl, rfl⟩ | exact absurd trivial h

/-- **The invariant.** -/
structure Inv (A : State ι) : Prop where
  /-- there is no entry before anybody has come, and after everybody has seen it -/
  absent : A.entry = none → (∀ p, ¬ (A.stage p).Wrote) ∨ ∀ p, (A.stage p).seen ≠ none
  /-- the entry holds the parties that have added themselves -/
  stored : ∀ e, A.entry = some e →
    (∃ p, (A.stage p).Wrote) ∧ ∀ p, p ∈ e ↔ (A.stage p).Wrote
  found : ∀ p, A.stage p = .found → ∃ q, (A.stage q).Wrote
  sees : ∀ p e, (A.stage p).seen = some e → p ∈ e ∧ ∀ q ∈ e, (A.stage q).Wrote
  /-- a receiver that has not been served is on somebody's list, or waits for the sender -/
  served : ∀ i e, (A.stage (some i)).seen = some e → i ∈ (A.stage (some i)).todo ∨
    i ∈ (A.stage none).todo ∨ 0 < A.completions i ∨ (A.stage none).seen = none ∧ none ∉ e
  /-- the last party to come sees everybody -/
  last : (∀ p, (A.stage p).Wrote) →
    ∃ p, A.stage p = .written ∨ (A.stage p).seen = some Set.univ
  gone : ∀ p, A.stage p = .deleted → A.entry = none

namespace Inv

variable {A A' : State ι} {p : Option ι} {a : Action ι}

omit [DecidableEq ι] in
theorem init : Inv (State.init : State ι) := by
  constructor <;> simp [State.init, Stage.Wrote, Stage.seen]

omit [DecidableEq ι] in
/-- A party that has found an entry, or has added itself to it, still finds it. -/
theorem present (h : Inv A) (hseen : (A.stage p).seen = none) (hwrote : ∃ q, (A.stage q).Wrote) :
    ∃ e, A.entry = some e := by
  by_contra hnone
  have hentry : A.entry = none := by
    cases hA : A.entry with
    | none => rfl
    | some e => exact absurd ⟨e, hA⟩ hnone
  rcases h.absent hentry with hnobody | hall
  · obtain ⟨q, hq⟩ := hwrote
    exact hnobody q hq
  · exact hall p hseen

/-- A party moves on before its write. -/
theorem approach (h : Inv A) (hbefore : ¬ (A.stage p).Wrote)
    (hafter : stage = .entered ∨ stage = .found ∧ ∃ q, (A.stage q).Wrote) :
    Inv (A.move p stage) := by
  have hnot : ¬ stage.Wrote := by rcases hafter with rfl | ⟨rfl, -⟩ <;> exact id
  obtain ⟨hseen₀, htodo₀⟩ := Stage.of_not_wrote hbefore
  obtain ⟨hseen₁, htodo₁⟩ := Stage.of_not_wrote hnot
  have hwrote := State.move_same Stage.Wrote stage (A := A) (p := p) rfl (by simp [hnot, hbefore])
  have hseen := State.move_same Stage.seen stage (A := A) (p := p) rfl (by rw [hseen₀, hseen₁])
  have htodo := State.move_same Stage.todo stage (A := A) (p := p) rfl (by rw [htodo₀, htodo₁])
  refine ⟨?_, ?_, fun q hq => ?_, ?_, ?_, fun hall => ?_, fun q hq => ?_⟩
  · simpa only [A.move_entry, hwrote, hseen] using h.absent
  · simpa only [A.move_entry, hwrote] using h.stored
  · simp only [hwrote]
    by_cases hqp : q = p
    · subst hqp
      rcases hafter with rfl | ⟨-, hex⟩
      · simp at hq
      · exact hex
    · rw [A.move_stage_of_ne stage hqp] at hq
      exact h.found q hq
  · simpa only [hwrote, hseen] using h.sees
  · simpa only [A.move_completions, hseen, htodo] using h.served
  · exact absurd (hwrote p ▸ hall p) hbefore
  · exact h.gone q (State.of_move hq (by rcases hafter with rfl | ⟨rfl, -⟩ <;> exact nofun))

/-- A party adds itself to the entry. -/
theorem write (h : Inv A) (hbefore : ¬ (A.stage p).Wrote)
    (he : ∀ q, q ∈ e ↔ q = p ∨ (A.stage q).Wrote) :
    Inv { A.move p .written with entry := some e } := by
  obtain ⟨hseen₀, htodo₀⟩ := Stage.of_not_wrote hbefore
  have hseen := State.move_same Stage.seen .written (A := A) rfl hseen₀.symm
  have htodo := State.move_same Stage.todo .written (A := A) rfl htodo₀.symm
  have hwrote (q : Option ι) : ((A.move p .written).stage q).Wrote ↔ q = p ∨ (A.stage q).Wrote := by
    by_cases hq : q = p
    · subst hq
      simp [Stage.Wrote]
    · rw [A.move_stage_of_ne _ hq]
      simp [hq]
  have hself : ((A.move p .written).stage p).Wrote := (hwrote p).2 (.inl rfl)
  refine ⟨nofun, ?_, fun _ _ => ⟨p, hself⟩, fun q e' hq => ?_, ?_, fun _ => ⟨p, .inl (by simp)⟩,
    fun q hq => ?_⟩
  · rintro e' ⟨⟩
    exact ⟨⟨p, hself⟩, fun q => (he q).trans (hwrote q).symm⟩
  · obtain ⟨hmem, hall⟩ := h.sees q e' ((hseen q).symm.trans hq)
    exact ⟨hmem, fun q' hq' => (hwrote q').2 (.inr (hall q' hq'))⟩
  · simpa only [A.move_completions, hseen, htodo] using h.served
  · -- nobody has removed the entry: this party has not seen it yet
    have hq' := State.of_move hq nofun
    obtain ⟨e', he'⟩ := h.present hseen₀ ⟨q, by rw [hq']; trivial⟩
    rw [h.gone q hq'] at he'
    cases he'

/-- A party reads the entry back. -/
theorem reload (h : Inv A) (hp : A.stage p = .written)
    (hentry : A.entry = some e) : Inv (A.move p (.delivering e (duties p e))) := by
  obtain ⟨hsome, hmem⟩ := h.stored e hentry
  have hwrote := State.move_same Stage.Wrote (.delivering e (duties p e)) hp rfl
  have hself : (A.stage p).Wrote := by rw [hp]; trivial
  refine ⟨fun hnone => ?_, ?_, fun q hq => ?_, fun q e' hq => ?_, fun i e' hi => ?_,
    fun hall => ?_, fun q hq => ?_⟩
  · rw [A.move_entry, hentry] at hnone
    cases hnone
  · simpa only [A.move_entry, hwrote] using h.stored
  · simpa only [hwrote] using hsome
  · simp only [hwrote]
    by_cases hqp : q = p
    · subst hqp
      obtain rfl : e = e' := by simpa [Stage.seen] using hq
      exact ⟨(hmem q).2 hself, fun q' hq' => (hmem q').1 hq'⟩
    · rw [A.move_stage_of_ne _ hqp] at hq
      exact h.sees q e' hq
  · by_cases hip : some i = p
    · -- a receiver that does not see the sender has come before it
      subst hip
      obtain rfl : e = e' := by simpa [Stage.seen] using hi
      by_cases hsender : none ∈ e
      · exact .inl (by simp [Stage.todo, duties, hsender])
      · have hnone := (Stage.of_not_wrote (mt (hmem none).2 hsender)).1
        rw [A.move_stage_of_ne _ (by simp : (none : Option ι) ≠ some i)]
        exact .inr (.inr (.inr ⟨hnone, hsender⟩))
    · rw [A.move_stage_of_ne _ hip] at hi ⊢
      by_cases hsender : p = none
      · -- the sender finds every receiver that waits for it
        subst hsender
        have hi' := (hmem (some i)).2 (Stage.wrote_of_seen hi)
        exact .inr (.inl (by simp [Stage.todo, duties, hi']))
      · rw [A.move_stage_of_ne _ (Ne.symm hsender)]
        exact h.served i e' hi
  · simp only [hwrote] at hall
    have huniv : e = Set.univ := Set.eq_univ_of_forall fun q => (hmem q).2 (hall q)
    exact ⟨p, .inr (by simp [Stage.seen, huniv])⟩
  · exact h.gone q (State.of_move hq nofun)

/-- A receiver is served. -/
theorem complete (h : Inv A) {todo : Set ι} {i : ι}
    (hp : A.stage p = .delivering e todo) : Inv { A.move p (.delivering e (todo \ {i})) with
      completions := Function.update A.completions i (A.completions i + 1) } := by
  have hwrote := State.move_same Stage.Wrote (.delivering e (todo \ {i})) hp rfl
  have hseen := State.move_same Stage.seen (.delivering e (todo \ {i})) hp rfl
  have htodo {j : ι} (hji : j ≠ i) {q : Option ι} (hj : j ∈ (A.stage q).todo) :
      j ∈ ((A.move p (.delivering e (todo \ {i}))).stage q).todo := by
    by_cases hqp : q = p
    · subst hqp
      rw [hp] at hj
      rw [A.move_stage_self]
      exact ⟨hj, hji⟩
    · rwa [A.move_stage_of_ne _ hqp]
  refine ⟨?_, ?_, fun q hq => ?_, ?_, fun j e' hj => ?_, fun hall => ?_, fun q hq => ?_⟩
  · simpa only [A.move_entry, hwrote, hseen] using h.absent
  · simpa only [A.move_entry, hwrote] using h.stored
  · simpa only [hwrote] using h.found q (State.of_move hq nofun)
  · simpa only [hwrote, hseen] using h.sees
  · by_cases hji : j = i
    · subst hji
      exact .inr (.inr (.inl (by simp)))
    · rcases h.served j e' ((hseen _).symm.trans hj) with hj' | hj' | hj' | hj'
      · exact .inl (htodo hji hj')
      · exact .inr (.inl (htodo hji hj'))
      · exact .inr (.inr (.inl (by simpa [hji] using hj')))
      · exact .inr (.inr (.inr (by simpa only [hseen] using hj')))
  · simp only [hwrote] at hall
    obtain ⟨q, hq | hq⟩ := h.last hall
    · refine ⟨q, .inl ?_⟩
      have hqp : q ≠ p := by
        rintro rfl
        rw [hp] at hq
        cases hq
      exact (A.move_stage_of_ne _ hqp).trans hq
    · exact ⟨q, .inr ((hseen q).trans hq)⟩
  · exact h.gone q (State.of_move hq nofun)

/-- The entry is removed. -/
theorem delete (h : Inv A) (hp : A.stage p = .delivering Set.univ ∅)
    (halone : ∀ q, q ≠ p → ¬ (A.stage q).Window) :
    Inv { A.move p .deleted with entry := none } := by
  have hwrote := State.move_same Stage.Wrote .deleted hp rfl
  have hseen := State.move_same Stage.seen .deleted hp rfl
  have htodo := State.move_same Stage.todo .deleted hp rfl
  have hall (q : Option ι) : (A.stage q).Wrote := by
    have hp' : (A.stage p).seen = some Set.univ := by rw [hp]; rfl
    exact (h.sees p _ hp').2 q (Set.mem_univ q)
  refine ⟨fun _ => .inr fun q => ?_, nofun, fun q _ => ⟨q, ?_⟩, ?_, ?_, fun _ => ⟨p, .inr ?_⟩,
    fun _ _ => rfl⟩
  · rw [hseen]
    by_cases hqp : q = p
    · rw [hqp, hp]
      exact Option.some_ne_none _
    · exact Stage.seen_of_wrote (hall q) (halone q hqp)
  · rw [hwrote]
    exact hall q
  · simpa only [hwrote, hseen] using h.sees
  · simpa only [A.move_completions, hseen, htodo] using h.served
  · rw [hseen, hp]
    rfl

/-- **Every step keeps the invariant**, if the entry is removed only while no other party is in its
window. -/
theorem step (h : Inv A) (hstep : Step A p a A') (hallowed : RemovesAlone A p a) : Inv A' := by
  cases hstep with
  | enter hp => exact h.approach (by rw [hp]; exact id) (.inl rfl)
  | create hp habsent =>
    refine h.write (by rw [hp]; exact id) fun q => ?_
    rcases h.absent habsent with hnobody | hall
    · simp [hnobody]
    · exact absurd (by rw [hp]; rfl) (hall p)
  | find hp hpresent =>
    refine h.approach (by rw [hp]; exact id) (.inr ⟨rfl, ?_⟩)
    obtain ⟨e, he⟩ := Option.ne_none_iff_exists'.1 hpresent
    exact (h.stored e he).1
  | update hp he =>
    refine h.write (by rw [hp]; exact id) fun q => ?_
    rw [Set.mem_insert_iff, (h.stored _ he).2 q]
  | reload hp he => exact h.reload hp he
  | complete hp _ => exact h.complete hp
  | delete hp => exact h.delete hp hallowed

theorem of_reachable {allowed : State ι → Option ι → Action ι → Prop}
    (hallowed : ∀ {A p a}, allowed A p a → RemovesAlone A p a) (h : Reachable allowed A) :
    Inv A := by
  induction h with
  | init => exact init
  | step _ hstep hpermitted ih => exact ih.step hstep (hallowed hpermitted)

omit [DecidableEq ι] in
/-- **Nobody is forgotten**: when all parties are settled every receiver has been served. -/
theorem completions_pos (h : Inv A) (hsettled : ∀ p, (A.stage p).Settled) (i : ι) :
    0 < A.completions i := by
  have hdone (p : Option ι) : (A.stage p).todo = ∅ ∧ ∃ e, (A.stage p).seen = some e := by
    have hp := hsettled p
    cases hstage : A.stage p with
    | delivering e todo =>
      rw [hstage] at hp
      exact ⟨hp.1, _, rfl⟩
    | deleted => exact ⟨rfl, _, rfl⟩
    | _ =>
      rw [hstage] at hp
      exact hp.elim
  obtain ⟨e, he⟩ := (hdone (some i)).2
  rcases h.served i e he with hi | hi | hi | ⟨hnone, -⟩
  · rw [(hdone _).1] at hi
    exact hi.elim
  · rw [(hdone _).1] at hi
    exact hi.elim
  · exact hi
  · obtain ⟨e', he'⟩ := (hdone none).2
    rw [hnone] at he'
    cases he'

omit [DecidableEq ι] in
/-- When all parties are settled the entry is gone. -/
theorem entry_eq_none (h : Inv A) (hsettled : ∀ p, (A.stage p).Settled) : A.entry = none := by
  have hall (p : Option ι) : (A.stage p).Wrote := by
    have hp := hsettled p
    cases hstage : A.stage p <;> rw [hstage] at hp <;> trivial
  obtain ⟨p, hp | hp⟩ := h.last hall
  · have hset := hsettled p
    rw [hp] at hset
    exact hset.elim
  · refine h.gone p ?_
    have hset := hsettled p
    cases hstage : A.stage p with
    | delivering e todo =>
      rw [hstage] at hset hp
      exact absurd (Option.some.inj hp) hset.2
    | deleted => rfl
    | _ =>
      rw [hstage] at hset
      exact hset.elim

end Inv

/-! ### Nobody is served twice -/

/-- The party `p` has found the receiver `i` on its list. -/
def Due (A : State ι) (i : ι) (p : Option ι) : Prop :=
  ∃ e, (A.stage p).seen = some e ∧ i ∈ duties p e

/-- **The invariant of the completions.** -/
structure Once (A : State ι) : Prop where
  apart : (A.stage none).Window → ∀ i, ¬ (A.stage (some i)).Window
  /-- a receiver that has read the entry before the sender has come does not see the sender -/
  early : (A.stage none).Window → ∀ i e, (A.stage (some i)).seen = some e → none ∉ e
  /-- the sender sees only receivers that have read the entry before it -/
  late : ∀ e, (A.stage none).seen = some e → ∀ i, some i ∈ e → (A.stage (some i)).seen ≠ none
  exclusive : ∀ i p q, Due A i p → Due A i q → p = q
  pending : ∀ i p, i ∈ (A.stage p).todo → Due A i p ∧ A.completions i = 0
  completed : ∀ i, 0 < A.completions i → ∃ p, Due A i p
  atMost : ∀ i, A.completions i ≤ 1

namespace Once

variable {A A' : State ι} {p : Option ι} {a : Action ι}

omit [DecidableEq ι] in
theorem init : Once (State.init : State ι) := by
  constructor <;> simp [State.init, Due, Stage.Window, Stage.seen, Stage.todo]

omit [DecidableEq ι] in
/-- A step that changes neither the windows, nor what was seen, nor what is to be done. -/
theorem congr (h : Once A) (hwindow : ∀ q, (A'.stage q).Window = (A.stage q).Window)
    (hseen : ∀ q, (A'.stage q).seen = (A.stage q).seen)
    (htodo : ∀ q, (A'.stage q).todo = (A.stage q).todo)
    (hcompletions : A'.completions = A.completions) : Once A' := by
  obtain ⟨hapart, hearly, hlate, hexclusive, hpending, hcompleted, hatMost⟩ := h
  constructor <;> simpa only [Due, hwindow, hseen, htodo, hcompletions]

/-- A party enters its window. -/
theorem enter (h : Once A) (hinv : Inv A) (hp : A.stage p = .idle)
    (hallowed : EntersApart A p .enter) : Once (A.move p .entered) := by
  have hseen := State.move_same Stage.seen .entered hp rfl
  have htodo := State.move_same Stage.todo .entered hp rfl
  refine ⟨fun hnone i hi => ?_, fun hnone i e hi hsender => ?_, ?_, ?_, ?_, ?_, h.atMost⟩
  · match p with
    | none =>
      rw [A.move_stage_of_ne _ (by simp : some i ≠ none)] at hi
      exact hallowed i hi
    | some j =>
      rw [A.move_stage_of_ne _ (by simp : none ≠ some j)] at hnone
      exact hallowed hnone
  · rw [hseen] at hi
    -- who has seen the sender has seen it after its write
    match p with
    | none =>
      have hwrote := (hinv.sees _ e hi).2 none hsender
      rw [hp] at hwrote
      exact hwrote
    | some j =>
      rw [A.move_stage_of_ne _ (by simp : none ≠ some j)] at hnone
      exact h.early hnone i e hi hsender
  · simpa only [hseen] using h.late
  · simpa only [Due, hseen] using h.exclusive
  · simpa only [Due, A.move_completions, hseen, htodo] using h.pending
  · simpa only [Due, A.move_completions, hseen] using h.completed

/-- A party reads the entry back. -/
theorem reload (h : Once A) (hinv : Inv A) (hp : A.stage p = .written)
    (hentry : A.entry = some e) : Once (A.move p (.delivering e (duties p e))) := by
  have hwindow {q : Option ι} (hq : ((A.move p (.delivering e (duties p e))).stage q).Window) :
      (A.stage q).Window := by
    by_cases hqp : q = p
    · rw [hqp, hp]
      trivial
    · rwa [A.move_stage_of_ne _ hqp] at hq
  have hself : (A.stage p).seen = none := by rw [hp]; rfl
  have hdue {i : ι} {q : Option ι} (hq : Due (A.move p (.delivering e (duties p e))) i q) :
      q = p ∧ i ∈ duties p e ∨ q ≠ p ∧ Due A i q := by
    obtain ⟨e', he', hi⟩ := hq
    by_cases hqp : q = p
    · subst hqp
      obtain rfl : e = e' := by simpa [Stage.seen] using he'
      exact .inl ⟨rfl, hi⟩
    · rw [A.move_stage_of_ne _ hqp] at he'
      exact .inr ⟨hqp, e', he', hi⟩
  -- a receiver that is on the list of `p` is on no other list
  have hfresh {i : ι} {q : Option ι} (hi : i ∈ duties p e) (hq : Due A i q) : False := by
    obtain ⟨e', he', hi'⟩ := hq
    rcases hi with ⟨rfl, -⟩ | ⟨rfl, hsender⟩
    · rcases hi' with ⟨rfl, -⟩ | ⟨rfl, hsender⟩
      · rw [hself] at he'
        cases he'
      · exact h.early (by rw [hp]; trivial) i e' he' hsender
    · rcases hi' with ⟨rfl, hi'⟩ | ⟨rfl, -⟩
      · exact h.late e' he' i hi' hself
      · rw [hself] at he'
        cases he'
  have hdue' {i : ι} {q : Option ι} (hq : Due A i q) :
      Due (A.move p (.delivering e (duties p e))) i q := by
    obtain ⟨e', he', hi⟩ := hq
    have hqp : q ≠ p := by
      rintro rfl
      rw [hself] at he'
      cases he'
    exact ⟨e', by rwa [A.move_stage_of_ne _ hqp], hi⟩
  refine ⟨fun hnone i hi => h.apart (hwindow hnone) i (hwindow hi), fun hnone i e' hi => ?_,
    fun e' he' i hi => ?_, fun i q q' hq hq' => ?_, fun i q hi => ?_, fun i hi => ?_, h.atMost⟩
  · by_cases hip : some i = p
    · exact absurd (by rw [hip, hp]; trivial) (h.apart (hwindow hnone) i)
    · rw [A.move_stage_of_ne _ hip] at hi
      exact h.early (hwindow hnone) i e' hi
  · by_cases hip : some i = p
    · rw [hip, A.move_stage_self]
      exact Option.some_ne_none _
    · rw [A.move_stage_of_ne _ hip]
      by_cases hsender : none = p
      · subst hsender
        obtain rfl : e = e' := by simpa [Stage.seen] using he'
        have hwrote := ((hinv.stored e hentry).2 (some i)).1 hi
        exact Stage.seen_of_wrote hwrote (h.apart (by rw [hp]; trivial) i)
      · rw [A.move_stage_of_ne _ hsender] at he'
        exact h.late e' he' i hi
  · rcases hdue hq with ⟨hqp, hi⟩ | ⟨-, hold⟩ <;> rcases hdue hq' with ⟨hqp', hi'⟩ | ⟨-, hold'⟩
    · rw [hqp, hqp']
    · exact (hfresh hi hold').elim
    · exact (hfresh hi' hold).elim
    · exact h.exclusive i q q' hold hold'
  · by_cases hqp : q = p
    · subst hqp
      rw [A.move_stage_self] at hi
      refine ⟨⟨e, by rw [A.move_stage_self]; rfl, hi⟩, ?_⟩
      by_contra hpos
      obtain ⟨q', hq'⟩ := h.completed i (Nat.pos_of_ne_zero hpos)
      exact hfresh hi hq'
    · rw [A.move_stage_of_ne _ hqp] at hi
      exact ⟨hdue' (h.pending i q hi).1, (h.pending i q hi).2⟩
  · obtain ⟨q, hq⟩ := h.completed i hi
    exact ⟨q, hdue' hq⟩

/-- A receiver is served. -/
theorem complete (h : Once A) {todo : Set ι} {i : ι}
    (hp : A.stage p = .delivering e todo) (hi : i ∈ todo) :
    Once { A.move p (.delivering e (todo \ {i})) with
      completions := Function.update A.completions i (A.completions i + 1) } := by
  have hwindow := State.move_same Stage.Window (.delivering e (todo \ {i})) hp rfl
  have hseen := State.move_same Stage.seen (.delivering e (todo \ {i})) hp rfl
  obtain ⟨hdue, hzero⟩ := h.pending i p (by rw [hp]; exact hi)
  refine ⟨?_, ?_, ?_, ?_, fun j q hj => ?_, fun j hj => ?_, fun j => ?_⟩
  · simpa only [hwindow] using h.apart
  · simpa only [hwindow, hseen] using h.early
  · simpa only [hseen] using h.late
  · simpa only [Due, hseen] using h.exclusive
  · simp only [Due, hseen]
    dsimp only at hj
    by_cases hqp : q = p
    · subst hqp
      rw [A.move_stage_self] at hj
      obtain ⟨hj, hji⟩ := hj
      have hpending := h.pending j q (by rw [hp]; exact hj)
      exact ⟨hpending.1, by simpa [show j ≠ i from hji] using hpending.2⟩
    · rw [A.move_stage_of_ne _ hqp] at hj
      have hpending := h.pending j q hj
      refine ⟨hpending.1, ?_⟩
      by_cases hji : j = i
      · subst hji
        exact absurd (h.exclusive j q p hpending.1 hdue) hqp
      · simpa [hji] using hpending.2
  · simp only [Due, hseen]
    by_cases hji : j = i
    · subst hji
      exact ⟨p, hdue⟩
    · exact h.completed j (by simpa [hji] using hj)
  · by_cases hji : j = i
    · subst hji
      simp [hzero]
    · simpa [hji] using h.atMost j

/-- **Every step keeps the invariant of the completions**, if the sender and a receiver are never
both in their windows. -/
theorem step (h : Once A) (hinv : Inv A) (hstep : Step A p a A') (hallowed : EntersApart A p a) :
    Once A' := by
  cases hstep with
  | enter hp => exact h.enter hinv hp hallowed
  | reload hp hentry => exact h.reload hinv hp hentry
  | complete hp hi => exact h.complete hp hi
  | _ hp =>
    exact h.congr (State.move_same _ _ hp rfl) (State.move_same _ _ hp rfl)
      (State.move_same _ _ hp rfl) rfl

/-- **Nobody is served twice.** -/
theorem of_reachable {allowed : State ι → Option ι → Action ι → Prop}
    (hremoves : ∀ {A p a}, allowed A p a → RemovesAlone A p a)
    (henters : ∀ {A p a}, allowed A p a → EntersApart A p a) (h : Reachable allowed A) :
    Once A := by
  induction h with
  | init => exact init
  | step hreach hstep hpermitted ih =>
    exact ih.step (Inv.of_reachable hremoves hreach) hstep (henters hpermitted)

end Once

end

end Rendezvous
