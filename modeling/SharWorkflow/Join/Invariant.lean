import SharWorkflow.Engine.Gateway
import SharWorkflow.Engine.Rules
import Mathlib.Data.List.TakeWhile

/-!
# The arrivals at a join

A split that is paired with a join has opened a gateway instance and has sent one token into each
of its activated branches; the tokens arrive at the join, some of them perhaps more than once. The
arrivals run side by side. Each adds its branch to the stored entry in one atomic step, so the
entry is at any time the initial one with the arrivals recorded in the order of these steps, and
the arrival that completes the set of branches is the last one recorded.

* `Join`: a gateway instance, its join and the tokens that arrive.
* `Join.arrivals`: the stored entry after some arrivals.
* `Phase`, `JoinInv`: how far an arrival has come, and the invariant of all arrivals.
-/

namespace SharWorkflow

open Concurrent Protocol List

/-- **A gateway instance** with its join. `token i` is the token of the arrival `i`, which was sent
into the branch `branch i`. -/
structure Join (ι : Type) where
  lib : Lib
  ns : String
  /-- the gateway instance id -/
  iid : String
  /-- the variables of the split -/
  splitVars : Bytes
  /-- the branches that the split has activated -/
  expected : List String
  executionId : String
  processInstanceId : String
  workflowId : String
  workflow : Workflow
  process : Process
  element : Element
  spec : GatewaySpec
  branch : ι → String
  token : ι → WorkflowState
  expected_nodup : expected.Nodup
  branch_mem : ∀ i, branch i ∈ expected
  iid_comma : ',' ∉ iid.toList
  joins : spec.type ≠ .exclusive
  gateway_found : element.gateway = some spec
  process_found : ∀ i, workflow.process.lookup (token i).processId = some process
  element_found : ∀ i, (processTable process).lookup (token i).elementId = some element
  in_execution : ∀ i, (token i).executionId = executionId
  in_instance : ∀ i, (token i).processInstanceId = processInstanceId
  in_workflow : ∀ i, (token i).workflowId = workflowId
  tracked : ∀ i, ∃ earlier, (token i).satisfiesGatewayExpectation.lookup (token i).elementId =
    some ⟨earlier ++ [iid ++ "," ++ branch i]⟩
  expects : ∀ i, (token i).gatewayExpectations.lookup iid = some ⟨expected⟩

namespace Join

variable {ι : Type} (J : Join ι)

/-- Where the entry of the gateway instance is stored. -/
abbrev gatewayLoc : Loc := ⟨J.ns, .wfGateway, J.iid⟩

/-- Where the process instance is stored. -/
abbrev instanceLoc : Loc := ⟨J.ns, .wfProcessInstance, J.processInstanceId⟩

/-- The runs of `gatewayExecProcessor`, one for each arrival. -/
def runs (i : ι) : P (Except (Bool × Err) Bool) := (gatewayExecProcessor J.lib J.ns (J.token i)).run

/-- The route that the join reads from the token of an arrival: the branch, up to a comma. -/
def route (i : ι) : String := String.ofList ((J.branch i).toList.takeWhile (· ≠ ','))

/-- The entry of the gateway instance as the split has stored it. -/
def opened : Gateway := { vars := [J.splitVars] }

/-- The entry after the arrivals in `order`. -/
def arrivals (order : List ι) : Gateway :=
  order.foldl (fun gw i => gw.arrive (J.route i) (J.token i).vars) J.opened

/-- As many routes have arrived as branches were activated. -/
def Full (order : List ι) : Prop :=
  J.expected.length ≤ (J.arrivals order).metExpectations.keys.length

/-- The process instance is alive, and its workflow is the one of the join. -/
structure Alive (w : World) : Prop where
  execution : w.value ⟨J.ns, .wfExecution, J.executionId⟩ ≠ none
  processInstance : w.value J.instanceLoc ≠ none
  workflow : w.value ⟨J.ns, .wf, J.workflowId⟩ = some J.workflow
  cache : ∀ wf, w.cache J.workflowId = some wf → wf = J.workflow

/-- The gateway instance has just been opened. -/
structure Ready (w : World) : Prop extends J.Alive w where
  opened : w.value J.gatewayLoc = some J.opened

/-! ### The recorded arrivals -/

@[simp]
theorem arrivals_nil : J.arrivals [] = J.opened := rfl

@[simp]
theorem arrivals_append (order : List ι) (i : ι) :
    J.arrivals (order ++ [i]) = (J.arrivals order).arrive (J.route i) (J.token i).vars := by
  simp [arrivals]

theorem arrivals_vars (order : List ι) :
    (J.arrivals order).vars = J.splitVars :: order.map fun i => (J.token i).vars := by
  induction order using List.reverseRecOn with
  | nil => rfl
  | append_singleton order i ih => simp [Gateway.arrive, ih]

theorem mem_arrivals_keys (order : List ι) (b : String) :
    b ∈ (J.arrivals order).metExpectations.keys ↔ ∃ i ∈ order, J.route i = b := by
  induction order using List.reverseRecOn with
  | nil => simp [opened]
  | append_singleton order i ih =>
    rw [arrivals_append, Gateway.arrive, ← AList.mem_keys, AList.mem_insert, AList.mem_keys, ih]
    constructor
    · rintro (rfl | ⟨j, hj, rfl⟩)
      · exact ⟨i, by simp, rfl⟩
      · exact ⟨j, by simp [hj], rfl⟩
    · rintro ⟨j, hj, rfl⟩
      rcases mem_append.1 hj with hj | hj
      · exact .inr ⟨j, hj, rfl⟩
      · rw [mem_singleton.1 hj]
        exact .inl rfl

/-- A token names its gateway instance and its route. -/
theorem getGatewayInstanceID_token (i : ι) :
    getGatewayInstanceID (J.token i) = some (.ok (J.iid, J.route i)) := by
  obtain ⟨earlier, htracked⟩ := J.tracked i
  simp [getGatewayInstanceID, htracked, splitComma_append _ J.iid_comma, route]

theorem route_eq_branch {i : ι} (h : ',' ∉ (J.branch i).toList) : J.route i = J.branch i := by
  have hall : ∀ c ∈ (J.branch i).toList, decide (c ≠ ',') = true := by
    intro c hc
    exact decide_eq_true fun h' => h (h' ▸ hc)
  rw [route, takeWhile_eq_self_iff.2 hall, String.ofList_toList]

end Join

/-! ### The invariant -/

/-- How far an arrival has come: it is not yet recorded, it is recorded, it is recorded as the last
one, it has called `completeGateway`, it has published the completion, it has deleted the entry. -/
inductive Phase
  | pending
  | arrived
  | closing
  | marked
  | completed
  | deleted
  deriving DecidableEq

/-- The phases in order. -/
def Phase.stage : Phase → Nat
  | pending => 0
  | arrived => 1
  | closing => 2
  | marked => 3
  | completed => 4
  | deleted => 5

namespace Join

variable {ι : Type} (J : Join ι)

/-- `completeGateway` was called when all branches were recorded. -/
def MarkOk (e : WEvent ι) : Prop :=
  ∃ order, J.Full order ∧ e.before.value J.gatewayLoc = some (J.arrivals order)

/-- The completion carries the merged variables of the split and of all branches. -/
def CompletionOk (state : WorkflowState) : Prop :=
  ∃ order : List ι, order.Nodup ∧ J.Full order ∧
    J.lib.mergeGatewayVars (J.arrivals order) = some (.ok state.vars)

end Join

/-- **The invariant of the arrivals**, recorded in the given order. -/
structure JoinInv {ι : Type} (J : Join ι) (w : World) (t : List (WEvent ι)) (g : ι → Phase)
    (order : List ι) : Prop where
  alive : J.Alive w
  nodup : order.Nodup
  mem : ∀ i, i ∈ order ↔ g i ≠ .pending
  /-- an arrival that goes on to complete the gateway is the last one, and completes the set -/
  last : ∀ i, 2 ≤ (g i).stage → order.getLast? = some i ∧ J.Full order
  closer : order ≠ [] → J.Full order → ∃ i, 2 ≤ (g i).stage
  stored : (∀ i, g i ≠ .deleted) → w.value J.gatewayLoc = some (J.arrivals order)
  removed : ∀ i, g i = .deleted → w.value J.gatewayLoc = none
  unmarked : (∀ i, (g i).stage < 3) → marks "completeGateway" t = []
  marked : ∀ i, 3 ≤ (g i).stage →
    ∃ e, marks "completeGateway" t = [e] ∧ e.thread = i ∧ J.MarkOk e
  unsent : (∀ i, (g i).stage < 4) → sent .activityComplete t = []
  sent : ∀ i, 4 ≤ (g i).stage → ∃ state, sent .activityComplete t = [state] ∧ J.CompletionOk state

namespace JoinInv

variable {ι : Type} {J : Join ι} {w w' : World} {t : List (WEvent ι)} {g : ι → Phase}
  {order : List ι} {i : ι}

/-- At most one arrival completes the gateway. -/
theorem eq_of_closing (h : JoinInv J w t g order) {j : ι} (hi : 2 ≤ (g i).stage)
    (hj : 2 ≤ (g j).stage) : j = i := by
  have hlast := (h.last i hi).1
  rw [(h.last j hj).1] at hlast
  exact Option.some.inj hlast

/-- An event that concerns neither the entry nor the completion. -/
theorem keep (h : JoinInv J w t g order) {e : WEvent ι} (halive : J.Alive w')
    (hvalue : w'.value J.gatewayLoc = w.value J.gatewayLoc)
    (hmark : isMark "completeGateway" e.op = false)
    (hsent : sentState .activityComplete e.op e.answer = none) : JoinInv J w' (e :: t) g order where
  alive := halive
  nodup := h.nodup
  mem := h.mem
  last := h.last
  closer := h.closer
  stored := by rw [hvalue]; exact h.stored
  removed := by rw [hvalue]; exact h.removed
  unmarked := by simpa [marks, hmark] using h.unmarked
  marked := by simpa [marks, hmark] using h.marked
  unsent := by simpa [SharWorkflow.sent, hsent] using h.unsent
  sent := by simpa [SharWorkflow.sent, hsent] using h.sent

/-- **An arrival is recorded.** -/
theorem commit [DecidableEq ι] (h : JoinInv J w t g order) {e : WEvent ι} (hi : g i = .pending)
    (hopen : ¬ J.Full order) (halive : J.Alive w')
    (hvalue : w'.value J.gatewayLoc = some (J.arrivals (order ++ [i])))
    (hmark : isMark "completeGateway" e.op = false)
    (hsent : sentState .activityComplete e.op e.answer = none) {p : Phase}
    (hp : p = .arrived ∧ ¬ J.Full (order ++ [i]) ∨ p = .closing ∧ J.Full (order ++ [i])) :
    JoinInv J w' (e :: t) (Function.update g i p) (order ++ [i]) := by
  have hnone : ∀ j, (g j).stage < 2 := fun j => by
    by_contra hj
    exact hopen (h.last j (by omega)).2
  have hstage : p.stage ≤ 2 := by rcases hp with ⟨rfl, -⟩ | ⟨rfl, -⟩ <;> decide
  have hpending : p ≠ .pending := by rcases hp with ⟨rfl, -⟩ | ⟨rfl, -⟩ <;> decide
  have hdeleted : p ≠ .deleted := by rcases hp with ⟨rfl, -⟩ | ⟨rfl, -⟩ <;> decide
  have hbelow : ∀ j, (Function.update g i p j).stage < 3 := fun j => by
    by_cases hj : j = i
    · subst hj
      simp
      omega
    · simp only [ne_eq, hj, not_false_eq_true, Function.update_of_ne]
      have := hnone j
      omega
  refine ⟨halive, ?_, fun j => ?_, fun j hj => ?_, fun _ hfull => ?_, fun _ => hvalue,
    fun j hj => ?_, fun _ => ?_, fun j hj => ?_, fun _ => ?_, fun j hj => ?_⟩
  · have hmem : i ∉ order := fun hmem => (h.mem i).1 hmem hi
    refine nodup_append.2 ⟨h.nodup, nodup_singleton i, fun a ha b hb hab => hmem ?_⟩
    rwa [← mem_singleton.1 hb, ← hab]
  · by_cases hj : j = i
    · simp [hj, hpending]
    · simp [hj, h.mem]
  · by_cases hji : j = i
    · subst hji
      rcases hp with ⟨rfl, -⟩ | ⟨-, hfull⟩
      · simp [Phase.stage] at hj
      · exact ⟨by simp, hfull⟩
    · simp only [ne_eq, hji, not_false_eq_true, Function.update_of_ne] at hj
      exact absurd hj (by have := hnone j; omega)
  · rcases hp with ⟨-, hnot⟩ | ⟨rfl, -⟩
    · exact absurd hfull hnot
    · exact ⟨i, by simp [Phase.stage]⟩
  · have := hbelow j
    rw [hj] at this
    simp [Phase.stage] at this
  · simpa [marks, hmark] using h.unmarked fun j => by have := hnone j; omega
  · exact absurd hj (by have := hbelow j; omega)
  · simpa [SharWorkflow.sent, hsent] using h.unsent fun j => by have := hnone j; omega
  · exact absurd hj (by have := hbelow j; omega)

/-- **The last arrival goes on** to the phase `p`. -/
theorem advance [DecidableEq ι] (h : JoinInv J w t g order) {e : WEvent ι} {p : Phase}
    (hi : 2 ≤ (g i).stage) (hp : 2 ≤ p.stage) (halive : J.Alive w')
    (hstored : p ≠ .deleted → w'.value J.gatewayLoc = some (J.arrivals order))
    (hremoved : p = .deleted → w'.value J.gatewayLoc = none)
    (hunmarked : p.stage < 3 → marks "completeGateway" (e :: t) = []) (hmarked : 3 ≤ p.stage →
      ∃ e', marks "completeGateway" (e :: t) = [e'] ∧ e'.thread = i ∧ J.MarkOk e')
    (hunsent : p.stage < 4 → SharWorkflow.sent .activityComplete (e :: t) = [])
    (hsent : 4 ≤ p.stage →
      ∃ state, SharWorkflow.sent .activityComplete (e :: t) = [state] ∧ J.CompletionOk state) :
    JoinInv J w' (e :: t) (Function.update g i p) order := by
  have hself : Function.update g i p i = p := Function.update_self ..
  have hother : ∀ j, 2 ≤ (Function.update g i p j).stage → j = i := by
    intro j hj
    by_contra hji
    rw [Function.update_of_ne hji] at hj
    exact hji (h.eq_of_closing hi hj)
  refine ⟨halive, h.nodup, fun j => ?_, fun j hj => ?_, fun _ _ => ⟨i, by rwa [hself]⟩,
    fun hall => ?_, fun j hj => ?_, fun hall => ?_, fun j hj => ?_, fun hall => ?_, fun j hj => ?_⟩
  · by_cases hj : j = i
    · subst hj
      have hpending : g j ≠ .pending := fun h' => by simp [h', Phase.stage] at hi
      have hp' : p ≠ .pending := fun h' => by simp [h', Phase.stage] at hp
      simp [h.mem, hpending, hp']
    · simp [hj, h.mem]
  · rw [hother j hj]
    exact h.last i hi
  · exact hstored (hself ▸ hall i)
  · obtain rfl := hother j (by rw [hj]; decide)
    exact hremoved (hself ▸ hj)
  · exact hunmarked (hself ▸ hall i)
  · obtain rfl := hother j (by omega)
    exact hmarked (hself ▸ hj)
  · exact hunsent (hself ▸ hall i)
  · obtain rfl := hother j (by omega)
    exact hsent (hself ▸ hj)

end JoinInv

end SharWorkflow
