import SharWorkflow.Join.Arrival

/-!
# A join is completed once

Every activated branch arrives at the join, each one once, and no call fails. Whatever the order
in which the arrivals are served, one of them finds all branches recorded and completes the gateway
with the merged variables, and in the end the entry of the gateway instance is gone.

Two things can stand in the way. The route of a branch is read up to a comma, so branches are
confused when their ids agree up to one. And the variables are compared with the comparison of Go
interfaces, which panics on lists and maps: then no arrival calls `completeGateway` at all
(`join_stuck_on_lists`).

A message whose handler has failed is delivered again, and then a branch arrives twice. The entry
is deleted last, so a completion may have been published by an attempt that fails
(`join_completed_twice`), and an arrival that comes after the deletion opens the entry anew.

* `Join.OnePerBranch`: each activated branch arrives once.
* `join_completed_once`: exactly one arrival completes the gateway.
* `Join.Timely`, `join_completed_at_most_once`: with redelivery, as long as no branch arrives after
  the last one and no call fails after `completeGateway` was called.
-/

namespace SharWorkflow

open Concurrent Protocol World

variable {ι : Type}

/-- The variables of the split followed by those of the branches in `order`, merged. -/
def Join.merged (J : Join ι) (order : List ι) : Option (Except Err Bytes) :=
  J.lib.mergeGatewayVars { vars := J.splitVars :: order.map fun i => (J.token i).vars }

theorem Join.mergeGatewayVars_arrivals (J : Join ι) (order : List ι) :
    J.lib.mergeGatewayVars (J.arrivals order) = J.merged order := by
  simp only [merged, Lib.mergeGatewayVars, J.arrivals_vars]

/-- Each activated branch arrives once. -/
structure Join.OnePerBranch (J : Join ι) : Prop where
  injective : Function.Injective J.branch
  onto : ∀ b ∈ J.expected, ∃ i, J.branch i = b

variable {order : List ι} {w : World} {t : List (WEvent ι)} {g : ι → Phase}

namespace Join

variable {J : Join ι}

variable (hcomma : ∀ b ∈ J.expected, ',' ∉ b.toList)
include hcomma

/-- When all branches have arrived, the entry names every one of them. -/
theorem mem_keys_of_full
    (h : J.Full order) {b : String} (hb : b ∈ J.expected) :
    b ∈ (J.arrivals order).metExpectations.keys := by
  have hsub : (J.arrivals order).metExpectations.keys ⊆ J.expected := by
    intro b hb
    obtain ⟨i, -, rfl⟩ := (J.mem_arrivals_keys order b).1 hb
    rw [J.route_eq_branch (hcomma _ (J.branch_mem i))]
    exact J.branch_mem i
  have hsubperm := List.subperm_of_subset (J.arrivals order).metExpectations.keys_nodup hsub
  exact (hsubperm.perm_of_length_le h).mem_iff.2 hb

theorem mem_of_full (hbranches : J.OnePerBranch)
    (h : J.Full order) (i : ι) : i ∈ order := by
  have hkey := mem_keys_of_full hcomma h (J.branch_mem i)
  obtain ⟨j, hj, hroute⟩ := (J.mem_arrivals_keys order _).1 hkey
  rw [J.route_eq_branch (hcomma _ (J.branch_mem j))] at hroute
  exact hbranches.injective hroute ▸ hj

theorem full_of_mem (hbranches : J.OnePerBranch)
    (h : ∀ i, i ∈ order) : J.Full order := by
  refine (List.subperm_of_subset J.expected_nodup fun b hb => ?_).length_le
  obtain ⟨i, rfl⟩ := hbranches.onto b hb
  exact (J.mem_arrivals_keys order _).2 ⟨i, h i, J.route_eq_branch (hcomma _ hb)⟩

omit hcomma in
/-- At the start nobody has arrived. -/
theorem joinInv_start (h : J.Ready w) : JoinInv J w [] (fun _ => .pending) [] where
  alive := h.toAlive
  nodup := List.nodup_nil
  mem := by simp
  last := by simp [Phase.stage]
  closer := fun hne => absurd rfl hne
  stored := fun _ => h.opened
  removed := by simp
  unmarked := fun _ => rfl
  marked := by simp [Phase.stage]
  unsent := fun _ => rfl
  sent := by simp [Phase.stage]

omit hcomma in
/-- `completeGateway` was called by nobody, or once and in time. -/
theorem marks_cases (h : JoinInv J w t g order) :
    marks "completeGateway" t = [] ∨ ∃ e, marks "completeGateway" t = [e] ∧ J.MarkOk e := by
  by_cases hclosed : ∃ i, 3 ≤ (g i).stage
  · obtain ⟨i, hi⟩ := hclosed
    obtain ⟨e, he, -, hok⟩ := h.marked i hi
    exact .inr ⟨e, he, hok⟩
  · simp only [not_exists, not_le] at hclosed
    exact .inl (h.unmarked hclosed)

omit hcomma in
/-- The completion was published by nobody, or once. -/
theorem sent_cases (h : JoinInv J w t g order) :
    SharWorkflow.sent .activityComplete t = [] ∨ ∃ i state, 4 ≤ (g i).stage ∧
      SharWorkflow.sent .activityComplete t = [state] ∧ J.CompletionOk state := by
  by_cases hclosed : ∃ i, 4 ≤ (g i).stage
  · obtain ⟨i, hi⟩ := hclosed
    obtain ⟨state, hstate, hok⟩ := h.sent i hi
    exact .inr ⟨i, state, hi, hstate, hok⟩
  · simp only [not_exists, not_le] at hclosed
    exact .inl (h.unsent hclosed)

/-- While a branch is missing the entry is there. -/
theorem value_ne_none (hbranches : J.OnePerBranch)
    {i : ι} (h : JoinI J w t g) (hi : g i = .pending) : w.value J.gatewayLoc ≠ none := by
  obtain ⟨order, h⟩ := h
  have hstored := h.stored fun j hj => by
    have hfull := (h.last j (by rw [hj]; decide)).2
    exact (h.mem i).1 (mem_of_full hcomma hbranches hfull i) hi
  rw [hstored]
  exact Option.some_ne_none _

/-- The circumstances of an arrival when every branch arrives once and no call fails. -/
theorem arrival_once (hbranches : J.OnePerBranch)
    (hmerge : ∀ order : List ι, order.Nodup → (∀ i, i ∈ order) →
      ∃ vars, J.merged order = some (.ok vars)) (i : ι) :
    Arrival J noFault False (fun _ _ => True) i
      fun p r => r = .ok true ∧ (p = .arrived ∨ p = .deleted) where
  present h hi _ := value_ne_none hcomma hbranches h hi
  notFull h hi _ _ hfull := (h.mem i).1 (mem_of_full hcomma hbranches hfull i) hi
  afterMark _ _ := not_faulted_noFault
  failed _ hfault := (not_faulted_noFault hfault).elim
  missing h hi hnone := (value_ne_none hcomma hbranches h hi hnone).elim
  merged order hnodup hfull := by
    obtain ⟨vars, hvars⟩ := hmerge order hnodup (mem_of_full hcomma hbranches hfull)
    rw [J.mergeGatewayVars_arrivals, hvars]
    trivial
  awaits := ⟨rfl, .inl rfl⟩
  closes := ⟨rfl, .inr rfl⟩

end Join

/-- **A join is completed once.** Each activated branch arrives once, no branch id has a comma and
the variables can be merged in whatever order the branches arrive. Then in every run at most one
arrival calls `completeGateway`, and when it does, all branches are recorded; what it publishes
are the merged variables of the split and of all branches; and when no arrival can go on, all have
succeeded, one of them has called `completeGateway` and the entry is gone. -/
theorem join_completed_once [Nonempty ι] [DecidableEq ι] (J : Join ι) (hbranches : J.OnePerBranch)
    (hcomma : ∀ b ∈ J.expected, ',' ∉ b.toList)
    (hmerge : ∀ order : List ι, order.Nodup → (∀ i, i ∈ order) →
      ∃ vars, J.merged order = some (.ok vars))
    {w₀ : World} (hready : J.Ready w₀) {c : Config ι Op Ans World (Except (Bool × Err) Bool)}
    (hrun : Run (env noFault) (.start w₀ J.runs) c) :
    (marks "completeGateway" c.trace).length ≤ 1 ∧
    (∀ e ∈ marks "completeGateway" c.trace, ∃ gw, e.before.value J.gatewayLoc = some gw ∧
      ∀ b ∈ J.expected, b ∈ gw.metExpectations.keys) ∧
    (∀ state ∈ sent .activityComplete c.trace, ∃ order : List ι, order.Nodup ∧ (∀ i, i ∈ order) ∧
      J.merged order = some (.ok state.vars)) ∧ ((∀ c', ¬ Step (env noFault) c c') →
      (∀ i, c.threads i = .ret (.ok true)) ∧ (marks "completeGateway" c.trace).length = 1 ∧
        (sent .activityComplete c.trace).length = 1 ∧ c.state.value J.gatewayLoc = none) := by
  have hstart : (natsProtocol noFault False (fun _ _ => True) (JoinI J)).inv w₀ []
      fun _ => .pending := ⟨[], Join.joinInv_start hready⟩
  obtain ⟨g, hsound⟩ := sound_of_run (sound_start hstart fun i =>
    safe_gatewayExecProcessor (Join.arrival_once hcomma hbranches hmerge i)) hrun (guarded_true _)
  obtain ⟨order, h⟩ := hsound.inv
  refine ⟨?_, ?_, ?_, fun hdone => ?_⟩
  · rcases Join.marks_cases h with hnone | ⟨e, he, -⟩
    · simp [hnone]
    · simp [he]
  · intro e he
    rcases Join.marks_cases h with hnone | ⟨e', he', order', hfull, hvalue⟩
    · simp [hnone] at he
    · rw [he', List.mem_singleton] at he
      subst he
      exact ⟨_, hvalue, fun b hb => Join.mem_keys_of_full hcomma hfull hb⟩
  · intro state hstate
    rcases Join.sent_cases h with hnone | ⟨-, state', -, hstate', order', hnodup, hfull, hvars⟩
    · simp [hnone] at hstate
    · rw [hstate', List.mem_singleton] at hstate
      subst hstate
      rw [J.mergeGatewayVars_arrivals] at hvars
      exact ⟨order', hnodup, Join.mem_of_full hcomma hbranches hfull, hvars⟩
  · have hresult (i : ι) : c.threads i = .ret (.ok true) ∧ (g i = .arrived ∨ g i = .deleted) := by
      obtain ⟨r, hr⟩ := hsound.returned
        (fun o s ho => World.exists_answer _ o s fun hpanic => ho hpanic) hdone i
      obtain ⟨s, -, hok, hphase⟩ := hsound.result hr
      exact ⟨by rw [hr, hok], hphase⟩
    -- all have arrived, so the last one has closed the gateway
    have hall : ∀ i, i ∈ order := by
      intro i
      refine (h.mem i).2 fun hpending => ?_
      rcases (hresult i).2 with hi | hi <;> rw [hpending] at hi <;> cases hi
    have hne : order ≠ [] := List.ne_nil_of_mem (hall (Classical.arbitrary ι))
    obtain ⟨i, hi⟩ := h.closer hne (Join.full_of_mem hcomma hbranches hall)
    have hdeleted : g i = .deleted := by
      rcases (hresult i).2 with harrived | hdeleted
      · rw [harrived] at hi
        simp [Phase.stage] at hi
      · exact hdeleted
    have hstage : (g i).stage = 5 := by rw [hdeleted]; rfl
    obtain ⟨e, he, -⟩ := h.marked i (by omega)
    obtain ⟨state, hstate, -⟩ := h.sent i (by omega)
    exact ⟨fun i => (hresult i).1, by simp [he], by simp [hstate], h.removed i hdeleted⟩

/-! ### Two joins -/

/-- An element at which branches join. -/
def joinElement : Element where
  id := "join"
  type := .gateway
  gateway := some { type := .parallel, direction := .convergent }

/-- A parallel join of the given branches, with the same variables on all tokens. -/
def parallelJoin {ι : Type} (lib : Lib) (vars : Bytes) (expected : List String)
    (hnodup : expected.Nodup) (branch : ι → String) (hmem : ∀ i, branch i ∈ expected) : Join ι where
  lib := lib
  ns := "default"
  iid := "gateway"
  splitVars := vars
  expected := expected
  executionId := "execution"
  processInstanceId := "instance"
  workflowId := "workflow"
  workflow := { process := AList.singleton "process" { elements := [joinElement] } }
  process := { elements := [joinElement] }
  element := joinElement
  spec := { type := .parallel, direction := .convergent }
  branch := branch
  token i :=
    { workflowId := "workflow", executionId := "execution", processInstanceId := "instance"
      processId := "process", elementId := "join", id := ["instance", "activity"], vars := vars
      satisfiesGatewayExpectation := AList.singleton "join" ⟨["gateway," ++ branch i]⟩
      gatewayExpectations := AList.singleton "gateway" ⟨expected⟩ }
  expected_nodup := hnodup
  branch_mem := hmem
  iid_comma := by decide
  joins := nofun
  gateway_found := rfl
  process_found _ := rfl
  element_found _ := rfl
  in_execution _ := rfl
  in_instance _ := rfl
  in_workflow _ := rfl
  tracked _ := ⟨[], rfl⟩
  expects _ := rfl

/-- The world in which the gateway instance has just been opened. -/
def Join.world (J : Join ι) : World :=
  ((((({} : World).put ⟨J.ns, .wfExecution, J.executionId⟩ {}).put J.instanceLoc {}).put
    ⟨J.ns, .wf, J.workflowId⟩ J.workflow).put J.gatewayLoc J.opened)

theorem Join.ready_world (J : Join ι) : J.Ready J.world where
  execution := by simp [world]
  processInstance := by simp [world]
  workflow := by simp [world]
  cache := by simp [world, World.put]
  opened := by simp [world]

/-- The encoding of variables with an empty list `items`. -/
def itemsVars : Bytes := [0x81, 0xa5, 0x69, 0x74, 0x65, 0x6d, 0x73, 0x90]

/-- Two branches that arrive once each, with the variables `vals`. -/
def twoBranches (vals : GoMap Value) : Join Bool :=
  parallelJoin (constLib vals) itemsVars ["a", "b"] (by decide) (fun i => if i then "b" else "a")
    (by decide)

theorem onePerBranch_twoBranches (vals : GoMap Value) : (twoBranches vals).OnePerBranch := by
  constructor
  · rintro (_ | _) (_ | _) h
    · rfl
    · simp [twoBranches, parallelJoin] at h
    · simp [twoBranches, parallelJoin] at h
    · rfl
  · intro b hb
    have hb' : b = "a" ∨ b = "b" := by simpa [twoBranches, parallelJoin] using hb
    rcases hb' with rfl | rfl
    exacts [⟨false, rfl⟩, ⟨true, rfl⟩]

/-- The variables with one flag. -/
def approvedVars : GoMap Value := AList.singleton "approved" (.bool true)

theorem mergeBranches_approvedVars (n : Nat) (bs : List Bytes) :
    (constLib approvedVars).mergeBranches approvedVars n bs (some approvedVars) =
      some (.ok (some approvedVars)) := by
  induction bs generalizing n with
  | nil => rfl
  | cons b bs ih =>
    cases b with
    | nil => exact ih (n + 1)
    | cons c b => exact ih (n + 1)

theorem merged_approvedVars (order : List Bool) (h : order ≠ []) :
    (twoBranches approvedVars).merged order = some (.ok []) := by
  cases order with
  | nil => exact absurd rfl h
  | cons i order =>
    have hbase : (constLib approvedVars).decode itemsVars = .ok (some approvedVars) := rfl
    have hmerge := mergeBranches_approvedVars 1
    simp only [Join.merged, Lib.mergeGatewayVars, twoBranches, parallelJoin, List.map_cons, hbase,
      Option.getD_some, hmerge]
    rfl

/-- One branch arrives and waits, then the other one completes the gateway. -/
theorem join_completed_once_twoBranches : ∃ c, Run (env noFault)
        (.start (twoBranches approvedVars).world (twoBranches approvedVars).runs) c ∧
      (∀ c', ¬ Step (env noFault) c c') ∧ (marks "completeGateway" c.trace).length = 1 ∧
      (sent .activityComplete c.trace).length = 1 ∧
      c.state.value (twoBranches approvedVars).gatewayLoc = none := by
  obtain ⟨c, hrun, hended⟩ := exists_run_of_reaches noFault
    (.start (twoBranches approvedVars).world (twoBranches approvedVars).runs)
    (List.replicate 15 (false, .ok) ++ List.replicate 24 (true, .ok))
    (fun c => ∀ i, (c.threads i).result?.isSome) (by decide +kernel)
  have hdone : ∀ c', ¬ Step (env noFault) c c' := fun c' =>
    not_step_of_ended fun i => .inl (hended i)
  have honce := join_completed_once (twoBranches approvedVars) (onePerBranch_twoBranches _)
    (by decide) (fun order _ hall => ⟨[], merged_approvedVars order
      (List.ne_nil_of_mem (hall true))⟩) (Join.ready_world _) hrun
  exact ⟨c, hrun, hdone, (honce.2.2.2 hdone).2⟩

/-- The variables with an empty list. -/
def itemsVals : GoMap Value := AList.singleton "items" (.list [])

/-- **A join that is never completed.** Both branches arrive once, with a variable that holds a
list. The second arrival panics when it compares the list with that of the split, and nobody
completes the gateway. -/
theorem join_stuck_on_lists : (twoBranches itemsVals).OnePerBranch ∧ (twoBranches itemsVals).Ready
      (twoBranches itemsVals).world ∧ ∃ c, Run (env noFault)
      (.start (twoBranches itemsVals).world (twoBranches itemsVals).runs) c ∧
      (∀ c', ¬ Step (env noFault) c c') ∧ marks "completeGateway" c.trace = [] := by
  refine ⟨onePerBranch_twoBranches _, Join.ready_world _, ?_⟩
  obtain ⟨c, hrun, hended, hmarks⟩ := exists_run_of_reaches noFault
    (.start (twoBranches itemsVals).world (twoBranches itemsVals).runs)
    (List.replicate 15 (false, .ok) ++ List.replicate 13 (true, .ok))
    (fun c => (∀ i, (c.threads i).result?.isSome ∨ panicked (c.threads i)) ∧
      (marks "completeGateway" c.trace).length = 0) (by decide +kernel)
  exact ⟨c, hrun, fun c' => not_step_of_ended hended, List.length_eq_zero_iff.1 hmarks⟩

/-! ### Redelivery -/

/-- **The condition for redelivered arrivals.** An arrival that reads the entry finds it, an arrival
is recorded only while a branch is missing, and no call fails in an attempt that has called
`completeGateway`. -/
def Join.Timely (J : Join ι) (e : WEvent ι) (t : List (WEvent ι)) : Prop :=
  (isReadAt J.gatewayLoc e.op = true → (e.before.value J.gatewayLoc).isSome = true) ∧
  (isCommitAt J.gatewayLoc e.op e.answer = true → ∀ gw ∈ e.before.value J.gatewayLoc,
    gw.metExpectations.keys.length < J.expected.length) ∧
  (isFailure e.op e.answer = true → ∀ e' ∈ marks "completeGateway" t, e'.thread ≠ e.thread)

instance [DecidableEq ι] (J : Join ι) (e : WEvent ι) (t : List (WEvent ι)) :
    Decidable (J.Timely e t) := by
  unfold Join.Timely
  infer_instance

/-- The circumstances of a timely arrival. Calls may fail and branches may arrive repeatedly. -/
theorem Join.arrival_timely (J : Join ι) (i : ι) :
    Arrival J anyFault True J.Timely i fun p _ => p ≠ .marked ∧ p ≠ .completed where
  present _ _ htimely := by
    have hsome := htimely.1 (by simp [isReadAt])
    exact Option.isSome_iff_ne_none.1 hsome
  notFull _ _ hstored htimely := by
    have hlt := htimely.2.1 (by simp [isCommitAt]) _ hstored
    exact not_le.2 hlt
  afterMark := by
    rintro w t g ⟨order, h⟩ hi ⟨o, r, -, hfailure, htimely⟩
    obtain ⟨e, he, hthread, -⟩ := h.marked i hi
    exact htimely.2.2 hfailure e (by rw [he]; exact List.mem_singleton_self e) hthread
  failed _ _ _ hp := by
    constructor <;> rintro rfl <;> simp [Phase.stage] at hp
  missing _ _ _ := by simp
  merged order _ _ := by
    split
    · trivial
    · simp
    · trivial
  awaits := by simp
  closes := by simp

/-- **A join is completed at most once** even if branches arrive repeatedly and calls fail, in every
run whose steps are timely. Once it has completed and all arrivals have returned, its entry is
gone. -/
theorem join_completed_at_most_once [DecidableEq ι] (J : Join ι) {w₀ : World}
    (hready : J.Ready w₀) {c : Config ι Op Ans World (Except (Bool × Err) Bool)}
    (hrun : Run (env anyFault) (.start w₀ J.runs) c)
    (htimely : Guarded J.Timely c.trace) : (sent .activityComplete c.trace).length ≤ 1 ∧
    ((∀ i, ∃ r, c.threads i = .ret r) → sent .activityComplete c.trace ≠ [] →
      c.state.value J.gatewayLoc = none) := by
  have hstart : (natsProtocol anyFault True J.Timely (JoinI J)).inv w₀ []
      fun _ => .pending := ⟨[], Join.joinInv_start hready⟩
  obtain ⟨g, hsound⟩ := sound_of_run (sound_start hstart fun i =>
    safe_gatewayExecProcessor (J.arrival_timely i)) hrun htimely
  obtain ⟨order, h⟩ := hsound.inv
  rcases Join.sent_cases h with hnone | ⟨i, state, hi, hstate, -⟩
  · simp [hnone]
  · refine ⟨by simp [hstate], fun hreturned _ => h.removed i ?_⟩
    obtain ⟨r, hr⟩ := hreturned i
    obtain ⟨s, -, hmarked, hcompleted⟩ := hsound.result hr
    -- the arrival has published the completion and has returned, so it has deleted the entry
    cases hphase : g i with
    | deleted => rfl
    | completed => exact absurd hphase hcompleted
    | _ => simp [hphase, Phase.stage] at hi

/-- Two branches, the first of which is delivered again after a failed attempt. -/
def redelivered : Join (Fin 3) :=
  parallelJoin (constLib approvedVars) itemsVars ["a", "b"] (by decide)
    (fun i => if i = 2 then "b" else "a") (by decide)

/-- The first attempt fails when it publishes that it waits; the second one waits, and the other
branch completes the gateway. -/
theorem join_completed_at_most_once_redelivered :
    ∃ c, Run (env anyFault) (.start redelivered.world redelivered.runs) c ∧ Guarded
      redelivered.Timely c.trace ∧ (∃ e, c.threads 0 = .ret (.error e)) ∧ (sent .activityComplete
      c.trace).length = 1 ∧ c.state.value redelivered.gatewayLoc = none := by
  obtain ⟨c, hrun, htimely, hfailed, hsent, hreturned⟩ := exists_run_of_reaches anyFault
    (.start redelivered.world redelivered.runs)
    (List.replicate 14 (0, .ok) ++ [(0, .fail)] ++ List.replicate 15 (1, .ok) ++
      List.replicate 24 (2, .ok))
    (fun c => Guarded redelivered.Timely c.trace ∧ (∃ e, c.threads 0 = .ret (.error e)) ∧
      (sent .activityComplete c.trace).length = 1 ∧ ∀ i, ∃ r, c.threads i = .ret r)
    (by decide +kernel)
  have honce := join_completed_at_most_once redelivered (Join.ready_world _) hrun htimely
  refine ⟨c, hrun, htimely, hfailed, hsent, honce.2 hreturned ?_⟩
  exact List.ne_nil_of_length_eq_add_one hsent

/-- One branch, delivered twice. -/
def oneBranch : Join Bool :=
  parallelJoin (constLib approvedVars) itemsVars ["a"] (by decide) (fun _ => "a") (by decide)

/-- **A join that is completed twice.** The first attempt publishes the completion and fails to
delete the entry. Delivered again, the branch finds the entry with all branches recorded and
publishes the completion once more. -/
theorem join_completed_twice : oneBranch.Ready oneBranch.world ∧
    ∃ c₁ c, Run (env anyFault) (.start oneBranch.world oneBranch.runs) c₁ ∧
      (∃ e, c₁.threads false = .ret (.error e)) ∧ (∀ e ∈ c₁.trace, e.thread = false) ∧
      Run (env anyFault) c₁ c ∧ (∃ v, c.threads true = .ret (.ok v)) ∧
      (sent .activityComplete c.trace).length = 2 := by
  refine ⟨Join.ready_world _, ?_⟩
  obtain ⟨c₁, hrun₁, hfailed, hfirst, hreaches⟩ := exists_run_of_reaches anyFault
    (.start oneBranch.world oneBranch.runs) (List.replicate 23 (false, .ok) ++ [(false, .fail)])
    (fun c₁ => (∃ e, c₁.threads false = .ret (.error e)) ∧ (∀ e ∈ c₁.trace, e.thread = false) ∧
      c₁.reaches (World.pick anyFault) (List.replicate 24 (true, .ok)) fun c =>
        (∃ v, c.threads true = .ret (.ok v)) ∧ (sent .activityComplete c.trace).length = 2)
    (by decide +kernel)
  obtain ⟨c, hrun, hrest⟩ := exists_run_of_reaches anyFault c₁ _ _ hreaches
  exact ⟨c₁, c, hrun₁, hfailed, hfirst, hrun, hrest⟩

end SharWorkflow
