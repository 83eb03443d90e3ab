import SharWorkflow.Nats.Protocol
import Mathlib.Data.Fintype.Basic

/-!
# Concurrent updates of one object

Several calls of `UpdateObj` on one key run side by side. The update loop applies each update
function atomically, so the updates that go through it are serialised by the order of their
commits. The save that precedes the loop when a call finds the key absent is an unconditional
write, and is not part of that order: made after another call's update has committed, it wipes
that update out.

* `PutsFirst`: the condition on a run under which the saves are harmless: the key was absent at
  the start, and no update has committed when a save is made.
* `updateObj_linearizable`: under it the stored object is the initial one with every update
  function applied once, in some order.
* `updateObj_loses_update`: without it an update can be lost.
-/

namespace SharWorkflow

open Concurrent Protocol World

/-- An unconditional write is made only if the object was absent in `w₀`, and only before the
first update commits. -/
def PutsFirst {ι : Type} (loc : Loc) (w₀ : World) (e : WEvent ι) (t : List (WEvent ι)) : Prop :=
  isPutAt loc e.op = true →
    w₀.value loc = none ∧ ∀ e' ∈ t, isCommitAt loc e'.op e'.answer = false

instance {ι : Type} (loc : Loc) (w₀ : World) (e : WEvent ι) (t : List (WEvent ι)) :
    Decidable (PutsFirst loc w₀ e t) :=
  inferInstanceAs (Decidable (_ → _))

section

variable {ι : Type} [DecidableEq ι] (loc : Loc) (msg : ι → loc.Val) (f : ι → loc.Val → loc.Val)
  (w₀ : World)

/-- The calls: the call `i` passes the message `msg i` and the update function `f i`. -/
def updateCalls (i : ι) : P (Except Err loc.Val) :=
  (updateObj loc (msg i) fun v => .ok (f i v)).run

/-- The object the updates start from: the one stored at first, or else a passed-in message. -/
def InitialObject (init : loc.Val) : Prop :=
  match w₀.value loc with
  | some v => init = v
  | none => ∃ i, init = msg i

/-- The invariant: the calls in `order`, marked in `g`, have committed, in this order, and the
stored object is what they make of the initial one. -/
structure UpdateInv (w : World) (t : List (WEvent ι)) (g : ι → Bool) (order : List ι) : Prop where
  nodup : order.Nodup
  mem : ∀ i, i ∈ order ↔ g i = true
  absent : w.value loc = none → order = []
  stored : ∀ v, w.value loc = some v →
    ∃ init, InitialObject loc msg w₀ init ∧ v = order.foldl (fun v i => f i v) init
  committed : order ≠ [] → ∃ e ∈ t, isCommitAt loc e.op e.answer = true

/-- The protocol of the calls. -/
def updateProtocol : Protocol ι Op Ans World Bool :=
  natsProtocol noFault False (PutsFirst loc w₀) fun w t g =>
    ∃ order, UpdateInv loc msg f w₀ w t g order

variable {loc msg f w₀} {t : List (WEvent ι)} {order : List ι} {g : ι → Bool}

omit [DecidableEq ι] in
theorem UpdateInv.event {w w' : World}
    (h : UpdateInv loc msg f w₀ w t g order) (hw : w'.value loc = w.value loc) (e : WEvent ι) :
    UpdateInv loc msg f w₀ w' (e :: t) g order where
  nodup := h.nodup
  mem := h.mem
  absent := by rw [hw]; exact h.absent
  stored := by rw [hw]; exact h.stored
  committed hne :=
    let ⟨e', he', hc⟩ := h.committed hne
    ⟨e', List.mem_cons_of_mem e he', hc⟩

omit [DecidableEq ι] in
theorem quietInv_update : QuietInv noFault fun w (t : List (WEvent ι)) (g : ι → Bool) =>
    ∃ order, UpdateInv loc msg f w₀ w t g order := by
  rintro i s t g o r s' ⟨order, h⟩ henv hquiet
  exact ⟨order, h.event (value_of_quiet henv hquiet loc) _⟩

/-- **Commit.** The call `i` is appended to the order. -/
theorem UpdateInv.commit {w : World} {i : ι}
    {v : loc.Val} {rev : Nat} (h : UpdateInv loc msg f w₀ w t g order) (hi : g i = false)
    (hv : w.value loc = some v) : UpdateInv loc msg f w₀ (w.put loc (f i v))
      (⟨i, w, .update loc (f i v) rev, .ok ()⟩ :: t) (Function.update g i true) (order ++ [i]) where
  nodup := by
    have hmem : i ∉ order := by simp [h.mem, hi]
    refine List.nodup_append.2 ⟨h.nodup, List.nodup_singleton i, fun a ha b hb hab => hmem ?_⟩
    rwa [← List.mem_singleton.1 hb, ← hab]
  mem j := by
    by_cases hj : j = i
    · simp [hj]
    · simp [hj, h.mem]
  absent hnone := by simp at hnone
  stored v' hv' := by
    obtain ⟨init, hinit, hfold⟩ := h.stored v hv
    refine ⟨init, hinit, ?_⟩
    rw [put_value_self, Option.some_inj] at hv'
    rw [← hv', hfold]
    simp
  committed _ := ⟨_, List.mem_cons_self, by simp [isCommitAt]⟩

omit [DecidableEq ι] in
/-- **Save.** Before the first commit, a saved message becomes the initial object. -/
theorem UpdateInv.save {w : World} {i : ι}
    {r : Ans (.put loc (msg i))} (h : UpdateInv loc msg f w₀ w t g order)
    (hguard : PutsFirst loc w₀ ⟨i, w, .put loc (msg i), r⟩ t) :
    UpdateInv loc msg f w₀ (w.put loc (msg i)) (⟨i, w, .put loc (msg i), r⟩ :: t) g order := by
  obtain ⟨habsent, hclean⟩ := hguard (by simp [isPutAt])
  have horder : order = [] := by
    by_contra hne
    obtain ⟨e, he, hc⟩ := h.committed hne
    simp [hclean e he] at hc
  subst horder
  refine ⟨List.nodup_nil, h.mem, fun _ => rfl, fun v hv => ?_, fun hne => absurd rfl hne⟩
  rw [put_value_self, Option.some_inj] at hv
  exact ⟨msg i, by simp [InitialObject, habsent], hv.symm⟩

/-- Each call keeps the protocol, and has committed its update when it returns without error. -/
theorem safe_updateCalls (i : ι) (w : World) :
    (updateProtocol loc msg f w₀).Safe i (fun l _ r => r.isOk = true → l = true) false w
      (updateCalls loc msg f i) := by
  refine safe_updateObj quietInv_update ?_ ?_ ?_ ?_
  · intro s t g hat _ hguard
    obtain ⟨order, h⟩ := hat.inv
    exact ⟨order, h.save hguard⟩
  · intro s t g v hat hv _
    obtain ⟨order, h⟩ := hat.inv
    exact ⟨true, ⟨order ++ [i], h.commit hat.ghost hv⟩, fun _ => rfl⟩
  · exact fun _ _ h => nomatch h
  · exact fun _ hfault _ => (not_faulted_noFault hfault).elim

/-- **Concurrent updates are serialised**: in every run in which the unconditional writes come
first, once all calls have returned without error the stored object is the initial one with
every update function applied exactly once, in some order. -/
theorem updateObj_linearizable [Nonempty ι] {c : Config ι Op Ans World (Except Err loc.Val)}
    (hrun : Run (env noFault) (.start w₀ (updateCalls loc msg f)) c)
    (hputs : Guarded (PutsFirst loc w₀) c.trace)
    (hreturned : ∀ i, ∃ v, c.threads i = .ret (.ok v)) :
    ∃ (order : List ι) (init : loc.Val), order.Nodup ∧ (∀ i, i ∈ order) ∧ InitialObject loc msg w₀
      init ∧ c.state.value loc = some (order.foldl (fun v i => f i v) init) := by
  have hstart : (updateProtocol loc msg f w₀).inv w₀ [] fun _ => false :=
    ⟨[], List.nodup_nil, by simp, fun _ => rfl,
      fun v hv => ⟨v, by simp [InitialObject, hv], rfl⟩, fun h => absurd rfl h⟩
  obtain ⟨g, hsound⟩ := sound_of_run
    (sound_start hstart fun i => safe_updateCalls i w₀) hrun hputs
  obtain ⟨order, hinv⟩ := hsound.inv
  have hmem : ∀ i, i ∈ order := by
    intro i
    obtain ⟨v, hv⟩ := hreturned i
    obtain ⟨s, -, hi⟩ := hsound.result hv
    exact (hinv.mem i).2 (hi rfl)
  cases hvalue : c.state.value loc with
  | none =>
    obtain ⟨i⟩ := ‹Nonempty ι›
    have hi := hmem i
    simp [hinv.absent hvalue] at hi
  | some v =>
    obtain ⟨init, hinit, hfold⟩ := hinv.stored v hvalue
    exact ⟨order, init, hinv.nodup, hmem, hinit, by rw [hfold]⟩

end

/-- The open user tasks of an owner. -/
def ownerTasks : Loc := ⟨"default", .wfUserTasks, "owner"⟩

/-- Two tasks are opened for the owner. -/
def openTasks : Bool → P (Except Err (List String)) :=
  updateCalls ownerTasks (fun _ => ([] : List String)) fun i (v : List String) =>
    v ++ [if i then "task 2" else "task 1"]

/-- One call after the other: the first one saves the empty list, the second one finds it. -/
theorem updateObj_linearizable_openTasks :
    ∃ c, Run (env noFault) (.start {} openTasks) c ∧
      Guarded (PutsFirst ownerTasks {}) c.trace ∧
      ∃ (order : List Bool) (init : List String), order.Nodup ∧ (∀ i, i ∈ order) ∧
        InitialObject ownerTasks (fun _ : Bool => ([] : List String)) {} init ∧
        c.state.value ownerTasks =
          some (order.foldl (fun v i => v ++ [if i then "task 2" else "task 1"]) init) := by
  obtain ⟨c, hrun, hputs, hreturned⟩ := exists_run_of_reaches noFault
    (.start {} openTasks) (List.replicate 5 (false, .ok) ++ List.replicate 4 (true, .ok))
    (fun c => Guarded (PutsFirst ownerTasks {}) c.trace ∧ ∀ i, ∃ v, c.threads i = .ret (.ok v))
    (by decide +kernel)
  exact ⟨c, hrun, hputs, updateObj_linearizable hrun hputs hreturned⟩

/-! ### A lost update -/

/-- Both calls find no list. The second one runs to its end before the first one saves. -/
def lostUpdateSchedule : List (Bool × Choice) :=
  [(false, .ok), (true, .ok), (true, .ok), (true, .ok), (true, .ok), (true, .ok),
    (false, .ok), (false, .ok), (false, .ok), (false, .ok)]

/-- The list of open tasks that is stored in the end. -/
def openTasksStored (w : World) : Option (List String) := w.value ownerTasks

/-- **A lost update.** With the key absent, two calls can both return without error and leave an
object that no order of the two updates explains. -/
theorem updateObj_loses_update : ∃ c, Run (env noFault) (.start {} openTasks) c ∧
      (∀ i, ∃ v, c.threads i = .ret (.ok v)) ∧
      ¬ ∃ (order : List Bool) (init : List String), order.Nodup ∧ (∀ i, i ∈ order) ∧
        InitialObject ownerTasks (fun _ : Bool => ([] : List String)) {} init ∧
        c.state.value ownerTasks =
          some (order.foldl (fun v i => v ++ [if i then "task 2" else "task 1"]) init) := by
  obtain ⟨c, hrun, hstored, hreturned⟩ := exists_run_of_reaches noFault
    (.start {} openTasks) lostUpdateSchedule
    (fun c => openTasksStored c.state = some ["task 1"] ∧ ∀ i, ∃ v, c.threads i = .ret (.ok v))
    (by decide +kernel)
  refine ⟨c, hrun, hreturned, ?_⟩
  · rintro ⟨order, init, -, hmem, -, hvalue⟩
    have hsecond : ∀ (l : List Bool) (v : List String), "task 2" ∈ v ∨ true ∈ l →
        "task 2" ∈ l.foldl (fun v i => v ++ [if i then "task 2" else "task 1"]) v := by
      intro l
      induction l with
      | nil => simp
      | cons i l ih =>
        intro v h
        refine ih _ ?_
        cases i <;> simp at h ⊢
        exact h
    have := hsecond order init (.inr (hmem true))
    rw [openTasksStored, hvalue, Option.some_inj] at hstored
    simp [hstored] at this

end SharWorkflow
