import SharWorkflow.Engine.Messages
import SharWorkflow.Engine.Rules
import SharWorkflow.Messages.Rendezvous
import Mathlib.Data.Set.List

/-!
# The parties of a message

One message with its sender and the tasks that wait for it, all with the same name and correlation
key. The stored exchange is related to the entry of a rendezvous: each call with an effect on the
exchange is a step of the party that makes it.

* `Messaging`: the message, its expected receivers and their jobs.
* `Messaging.Shows`: an exchange holds the parties of a set.
* `Related`: the world and the trace show a reachable state of the rendezvous.
* `Permits`: what the condition on the events has to guarantee for the steps.
-/

namespace SharWorkflow

open Concurrent Protocol Rendezvous

/-- **A message and its receivers.** `job i` is the state with which the receiver `i` has been
started, and `stored i` its stored job. -/
structure Messaging (ι : Type) where
  lib : Lib
  ns : String
  /-- the name of the message -/
  name : String
  /-- the correlation key -/
  key : String
  /-- the variables of the sender -/
  vars : Bytes
  job : ι → WorkflowState
  stored : ι → WorkflowState
  workflow : ι → Workflow
  element : ι → Element
  expected : MessageReceivers
  element_injective : Function.Injective fun i => (job i).elementId
  job_injective : Function.Injective fun i => TrackingID.ID (job i).id
  stored_id : ∀ i, (stored i).id = (job i).id
  element_found : ∀ i, (elementTable (workflow i)).lookup (job i).elementId = some (element i)
  receives : ∀ i, (element i).msg = name
  correlates : ∀ i, correlationKeyOf lib (job i) (element i) = .ok key
  expects : ∀ k, (∃ r ∈ expected.messageReceiver, r.id = k) ↔ ∃ i, (job i).elementId = k

namespace Messaging

variable {ι : Type} (M : Messaging ι)

/-- Where the exchange is stored. -/
abbrev loc : Loc := messageLoc M.ns M.name M.key

/-- The id of the job that waits. -/
def jobId (i : ι) : String := TrackingID.ID (M.job i).id

def sender : Sender := ⟨M.vars, M.key⟩

def receiver (i : ι) : Receiver := ⟨M.jobId i, M.key⟩

/-- The handlers of the parties, delivered until they succeed. -/
def runs : Option ι → P Bool
  | none => redeliver (processMessage M.ns ⟨M.name, M.key, M.vars⟩)
  | some i => redeliver (awaitMessageProcessor M.lib M.ns (M.job i))

/-- A party is added to an exchange. -/
def setParty : Option ι → Exchange → Exchange
  | none, exch => { exch with sender := some M.sender }
  | some i, exch =>
    { exch with receivers := exch.receivers.insert (M.job i).elementId (M.receiver i) }

/-- The side on which a party is. -/
def partyOf : Option ι → Party
  | none => .sender
  | some _ => .receiver

/-- The element at which a party waits. -/
def elementOf : Option ι → String
  | none => ""
  | some i => (M.job i).elementId

/-- The completions of the job that waits at the receiver `i`. -/
def completions {κ : Type} (i : ι) (t : List (WEvent κ)) : List WorkflowState :=
  (sent .jobAwaitMessageComplete t).filter fun state => TrackingID.ID state.id = M.jobId i

/-- The receivers wait in live process instances, and are the expected ones. -/
structure Alive (w : World) : Prop where
  execution : ∀ i, w.value ⟨M.ns, .wfExecution, (M.job i).executionId⟩ ≠ none
  processInstance : ∀ i, w.value ⟨M.ns, .wfProcessInstance, (M.job i).processInstanceId⟩ ≠ none
  workflow : ∀ i, w.value ⟨M.ns, .wf, (M.job i).workflowId⟩ = some (M.workflow i)
  stored : ∀ i, w.value ⟨M.ns, .job, M.jobId i⟩ = some (M.stored i)
  expected : w.value ⟨M.ns, .wfMsgTypes, M.name⟩ = some M.expected

/-- Nobody has arrived yet. -/
structure Ready (w : World) : Prop extends M.Alive w where
  absent : w.value M.loc = none

variable {M}

theorem Alive.congr {w w' : World} (h : M.Alive w)
    (hvalue : ∀ l : Loc, l.bucket ≠ .wfMessages → w'.value l = w.value l) : M.Alive w' where
  execution i := by rw [hvalue _ (by nofun)]; exact h.execution i
  processInstance i := by rw [hvalue _ (by nofun)]; exact h.processInstance i
  workflow i := by rw [hvalue _ (by nofun)]; exact h.workflow i
  stored i := by rw [hvalue _ (by nofun)]; exact h.stored i
  expected := by rw [hvalue _ (by nofun)]; exact h.expected

/-! ### The exchange -/

variable (M) in
/-- **The exchange holds the parties of the set.** -/
structure Shows (exch : Exchange) (e : Set (Option ι)) : Prop where
  sender : none ∈ e → exch.sender = some M.sender
  noSender : none ∉ e → exch.sender = none
  receivers : ∀ k r, exch.receivers.lookup k = some r ↔
    ∃ i, some i ∈ e ∧ (M.job i).elementId = k ∧ M.receiver i = r

variable {exch : Exchange} {e : Set (Option ι)}

theorem shows_empty : M.Shows {} ∅ where
  sender h := h.elim
  noSender _ := rfl
  receivers k r := by simp

/-- A party is added. -/
theorem Shows.setParty (h : M.Shows exch e) (p : Option ι) :
    M.Shows (M.setParty p exch) (insert p e) := by
  match p with
  | none =>
    refine ⟨fun _ => rfl, fun hnot => absurd (Set.mem_insert none e) hnot, fun k r => ?_⟩
    simpa [Messaging.setParty] using h.receivers k r
  | some i =>
    refine ⟨fun hmem => h.sender (by simpa using hmem), fun hnot => h.noSender
      (by simpa using hnot), fun k r => ?_⟩
    by_cases hk : k = (M.job i).elementId
    · subst hk
      rw [Messaging.setParty, AList.lookup_insert, Option.some_inj]
      constructor
      · rintro rfl
        exact ⟨i, Set.mem_insert _ _, rfl, rfl⟩
      · rintro ⟨j, -, hj, rfl⟩
        rw [M.element_injective hj]
    · rw [Messaging.setParty, AList.lookup_insert_ne hk, h.receivers]
      constructor
      · rintro ⟨j, hj, hk', hr⟩
        exact ⟨j, Set.mem_insert_of_mem _ hj, hk', hr⟩
      · rintro ⟨j, hj, hk', hr⟩
        refine ⟨j, ?_, hk', hr⟩
        rcases hj with hj | hj
        · exact absurd (by rw [← hk', Option.some.inj hj]) hk
        · exact hj

theorem Shows.lookup (h : M.Shows exch e) {i : ι} (hi : some i ∈ e) :
    exch.receivers.lookup (M.job i).elementId = some (M.receiver i) :=
  (h.receivers _ _).2 ⟨i, hi, rfl, rfl⟩

theorem Shows.mem_keys (h : M.Shows exch e) {i : ι} :
    (M.job i).elementId ∈ exch.receivers.keys ↔ some i ∈ e := by
  rw [← AList.mem_keys, ← AList.lookup_isSome, Option.isSome_iff_exists]
  constructor
  · rintro ⟨r, hr⟩
    obtain ⟨j, hj, helement, -⟩ := (h.receivers _ _).1 hr
    rwa [← M.element_injective helement]
  · exact fun hi => ⟨_, h.lookup hi⟩

/-- Who sees the empty exchange sees nobody. -/
theorem Shows.eq_empty (h : M.Shows {} e) : e = ∅ := by
  refine Set.eq_empty_of_forall_notMem fun p hp => ?_
  match p with
  | none => cases h.sender hp
  | some i =>
    have hi := h.lookup hp
    simp at hi

/-- The order in which the receivers are ranged over. -/
theorem Shows.exists_order (h : M.Shows exch e) {order : List String}
    (hperm : order.Perm exch.receivers.keys) : ∃ l : List ι, l.Nodup ∧ (∀ i, i ∈ l ↔ some i ∈ e) ∧
      (order.map fun k => exch.receivers.lookup k) = l.map fun i => some (M.receiver i) := by
  have hrange : order ∈ Set.range (List.map fun i => (M.job i).elementId) := by
    rw [Set.range_list_map]
    intro k hk
    have hkey := hperm.mem_iff.1 hk
    rw [← AList.mem_keys, ← AList.lookup_isSome, Option.isSome_iff_exists] at hkey
    obtain ⟨r, hr⟩ := hkey
    obtain ⟨i, -, hi, -⟩ := (h.receivers k r).1 hr
    exact ⟨i, hi⟩
  obtain ⟨l, rfl⟩ := hrange
  have hmem (i : ι) : i ∈ l ↔ some i ∈ e := by
    rw [← h.mem_keys, ← hperm.mem_iff, List.mem_map_of_injective M.element_injective]
  refine ⟨l, List.Nodup.of_map _ (hperm.nodup_iff.2 exch.receivers.keys_nodup), hmem, ?_⟩
  rw [List.map_map]
  exact List.map_congr_left fun i hi => h.lookup ((hmem i).1 hi)

/-- All expected receivers are there if all receivers are. -/
theorem Shows.all_expected [Nonempty ι] (h : M.Shows exch e) (hsender : none ∈ e) :
    (!M.expected.messageReceiver.isEmpty && M.expected.messageReceiver.all fun r =>
      (exch.receivers.lookup r.id).isSome) = true ↔ e = Set.univ := by
  rw [Bool.and_eq_true, List.all_eq_true]
  constructor
  · rintro ⟨-, hall⟩
    refine Set.eq_univ_of_forall fun p => ?_
    match p with
    | none => exact hsender
    | some i =>
      obtain ⟨r, hr, hid⟩ := (M.expects _).2 ⟨i, rfl⟩
      rw [← h.mem_keys, ← hid, ← AList.mem_keys, ← AList.lookup_isSome]
      exact hall r hr
  · rintro rfl
    constructor
    · obtain ⟨i⟩ := ‹Nonempty ι›
      obtain ⟨r, hr, -⟩ := (M.expects _).2 ⟨i, rfl⟩
      cases hlist : M.expected.messageReceiver with
      | nil => simp [hlist] at hr
      | cons r' l => rfl
    · intro r hr
      obtain ⟨i, hi⟩ := (M.expects r.id).1 ⟨r, hr, rfl⟩
      rw [← hi, h.lookup (Set.mem_univ _)]
      rfl

end Messaging

/-! ### The rendezvous behind the exchange -/

section

variable {ι : Type} [DecidableEq ι]

/-- **The world and the trace show the state `A` of the rendezvous.** -/
structure Related (M : Messaging ι) (allowed : State ι → Option ι → Action ι → Prop) (w : World)
    (t : List (WEvent (Option ι))) (A : State ι) : Prop where
  reach : Reachable allowed A
  alive : M.Alive w
  entry : Option.Rel (fun e exch => M.Shows exch e) A.entry (w.value M.loc)
  completions : ∀ i, (M.completions i t).length = A.completions i
  window : ∀ p, (A.stage p).Window → lastMark p t = some "handleMessageExchange"
  entered : ∀ p, A.stage p ≠ .idle → lastMark p t ≠ none

/-- The invariant of the parties, whose ghost values are their stages. -/
def ExchangeI (M : Messaging ι) (allowed : State ι → Option ι → Action ι → Prop) (w : World)
    (t : List (WEvent (Option ι))) (g : Option ι → Stage ι) : Prop :=
  ∃ A, Related M allowed w t A ∧ A.stage = g

/-- **What the condition `G` on the events has to guarantee.** Only the steps by which a party
enters and by which it deletes the exchange are restricted, and no call fails in a handler that has
entered the exchange. -/
structure Permits (M : Messaging ι) (G : WEvent (Option ι) → List (WEvent (Option ι)) → Prop)
    (allowed : State ι → Option ι → Action ι → Prop) : Prop where
  removes : ∀ {A p a}, allowed A p a → RemovesAlone A p a
  free : ∀ {A p a}, a ≠ .enter → a ≠ .delete → allowed A p a
  enter : ∀ {A p w t}, Related M allowed w t A →
    G ⟨p, w, .mark "handleMessageExchange", ()⟩ t → allowed A p .enter
  delete : ∀ {A p w t}, Related M allowed w t A → G ⟨p, w, .delete M.loc, .ok ()⟩ t →
    allowed A p .delete
  calm : ∀ {e : WEvent (Option ι)} {t}, G e t → isFailure e.op e.answer = true →
    lastMark e.thread t = none

variable {M : Messaging ι} {allowed : State ι → Option ι → Action ι → Prop} {w w' : World}
  {t : List (WEvent (Option ι))} {A A' : State ι} {g : Option ι → Stage ι} {p : Option ι}

namespace Related

variable {e : WEvent (Option ι)}

section

variable (h : Related M allowed w t A)
include h

theorem completions_cons
    (hsent : sentState .jobAwaitMessageComplete e.op e.answer = none) (i : ι) :
    (M.completions i (e :: t)).length = A.completions i := by
  rw [← h.completions i]
  simp [Messaging.completions, sent, hsent]

/-- An event that is no step of the rendezvous. -/
theorem keep (halive : M.Alive w')
    (hvalue : w'.value M.loc = w.value M.loc) (hmark : ∀ f, isMark f e.op = false)
    (hsent : sentState .jobAwaitMessageComplete e.op e.answer = none) :
    Related M allowed w' (e :: t) A where
  reach := h.reach
  alive := halive
  entry := hvalue ▸ h.entry
  completions := h.completions_cons hsent
  window q hq := by rw [lastMark_cons_of_not_mark hmark]; exact h.window q hq
  entered q hq := by rw [lastMark_cons_of_not_mark hmark]; exact h.entered q hq

/-- An event that is a step of the rendezvous, other than the entry of a party. -/
theorem act {a : Action ι} (hstep : Step A p a A')
    (hallowed : allowed A p a) (ha : a ≠ .enter) (halive : M.Alive w')
    (hentry : Option.Rel (fun e exch => M.Shows exch e) A'.entry (w'.value M.loc))
    (hcompletions : ∀ i, (M.completions i (e :: t)).length = A'.completions i)
    (hmark : ∀ f, isMark f e.op = false) : Related M allowed w' (e :: t) A' where
  reach := .step h.reach hstep hallowed
  alive := halive
  entry := hentry
  completions := hcompletions
  window q hq := by rw [lastMark_cons_of_not_mark hmark]; exact h.window q (hstep.window ha hq)
  entered q hq := by rw [lastMark_cons_of_not_mark hmark]; exact h.entered q (hstep.ne_idle ha hq)

/-- A party enters the exchange. -/
theorem enter (hp : A.stage p = .idle)
    (hallowed : allowed A p .enter) :
    Related M allowed w (⟨p, w, .mark "handleMessageExchange", ()⟩ :: t) (A.move p .entered) where
  reach := .step h.reach (.enter hp) hallowed
  alive := h.alive
  entry := h.entry
  completions := h.completions_cons rfl
  window q hq := by
    by_cases hqp : p = q
    · rw [hqp, lastMark_cons_mark]
    · rw [A.move_stage_of_ne _ (Ne.symm hqp)] at hq
      rw [lastMark_cons_of_ne hqp]
      exact h.window q hq
  entered q hq := by
    by_cases hqp : p = q
    · rw [hqp, lastMark_cons_mark]
      exact Option.some_ne_none _
    · rw [A.move_stage_of_ne _ (Ne.symm hqp)] at hq
      rw [lastMark_cons_of_ne hqp]
      exact h.entered q hq

/-- A party that has read the exchange back begins to deliver. -/
theorem attempt (hp : ¬ (A.stage p).Window) :
    Related M allowed w (⟨p, w, .mark "attemptMessageDelivery", ()⟩ :: t) A where
  reach := h.reach
  alive := h.alive
  entry := h.entry
  completions := h.completions_cons rfl
  window q hq := by
    have hqp : p ≠ q := by
      rintro rfl
      exact hp hq
    rw [lastMark_cons_of_ne hqp]
    exact h.window q hq
  entered q hq := by
    by_cases hqp : p = q
    · rw [hqp, lastMark_cons_mark]
      exact Option.some_ne_none _
    · rw [lastMark_cons_of_ne hqp]
      exact h.entered q hq

end

end Related

end

end SharWorkflow
