import SharWorkflow.Join.Invariant

/-!
# One arrival at a join

A run of `gatewayExecProcessor` for a token that arrives at a join, next to any number of other
arrivals. The run is followed step by step; each step with an effect is one of the transitions of
the invariant (`JoinInv.commit`, `JoinInv.mark`, `JoinInv.complete`, `JoinInv.delete`).

* `Arrival`: what is asked of the circumstances in which the run takes place. It leaves open
  whether calls fail and whether other arrivals repeat a branch.
* `safe_completeGateway`, `safe_gatewayExecProcessor`: the run keeps the invariant.
-/

namespace SharWorkflow

open Concurrent Protocol World

variable {ι : Type} {J : Join ι} {w w' : World}

/-! ### The process instance stays alive -/

namespace Join.Alive

theorem put (h : J.Alive w) (loc : Loc) (v : loc.Val) (hloc : loc.bucket ≠ .wf) :
    J.Alive (w.put loc v) := by
  refine ⟨?_, ?_, ?_, h.cache⟩
  · by_cases hl : (⟨J.ns, .wfExecution, J.executionId⟩ : Loc) = loc
    · subst hl
      simp
    · rw [put_value_of_ne _ _ hl]
      exact h.execution
  · by_cases hl : J.instanceLoc = loc
    · subst hl
      simp
    · rw [put_value_of_ne _ _ hl]
      exact h.processInstance
  · have hl : (⟨J.ns, .wf, J.workflowId⟩ : Loc) ≠ loc := fun hl => hloc (by rw [← hl])
    rw [put_value_of_ne _ _ hl]
    exact h.workflow

theorem clear (h : J.Alive w) : J.Alive (w.clear J.gatewayLoc) := by
  refine ⟨?_, ?_, ?_, h.cache⟩
  · rw [clear_value_of_ne _ (by simp [Join.gatewayLoc])]
    exact h.execution
  · rw [clear_value_of_ne _ (by simp [Join.gatewayLoc, Join.instanceLoc])]
    exact h.processInstance
  · rw [clear_value_of_ne _ (by simp [Join.gatewayLoc])]
    exact h.workflow

theorem publish (h : J.Alive w) (m : Msg) : J.Alive (w.publish m) :=
  ⟨h.execution, h.processInstance, h.workflow, h.cache⟩

theorem of_quiet {F : Op → Prop} {o : Op} {r : Ans o} (h : J.Alive w) (henv : env F o w r w')
    (hquiet : IsQuiet o r) : J.Alive w' := by
  have hvalue := value_of_quiet henv hquiet
  refine ⟨?_, ?_, ?_, ?_⟩
  · rw [hvalue]
    exact h.execution
  · rw [hvalue]
    exact h.processInstance
  · rw [hvalue]
    exact h.workflow
  · rw [cache_of_quiet henv hquiet]
    exact h.cache

theorem cacheSet {F : Op → Prop} (h : J.Alive w)
    (henv : env F (.cacheSet J.workflowId J.workflow) w () w') : J.Alive w' := by
  rcases henv with rfl | rfl
  · exact h
  · exact ⟨h.execution, h.processInstance, h.workflow, by simp⟩

end Join.Alive

/-! ### The transitions of the invariant -/

/-- The arrivals are recorded in some order. -/
def JoinI (J : Join ι) (w : World) (t : List (WEvent ι)) (g : ι → Phase) : Prop :=
  ∃ order, JoinInv J w t g order

theorem quietInv_joinI {F : Op → Prop} : QuietInv F (JoinI J) := by
  rintro i s t g o r s' ⟨order, h⟩ henv hquiet
  exact ⟨order, h.keep (h.alive.of_quiet henv hquiet) (value_of_quiet henv hquiet _)
    (isMark_of_quiet hquiet) (sentState_of_quiet hquiet)⟩

/-- A write to another bucket. -/
theorem JoinI.put {t : List (WEvent ι)} {g : ι → Phase} (h : JoinI J w t g) {loc : Loc}
    {v : loc.Val} (hwf : loc.bucket ≠ .wf) (hgw : loc.bucket ≠ .wfGateway) {e : WEvent ι}
    (hmark : isMark "completeGateway" e.op = false)
    (hsent : sentState .activityComplete e.op e.answer = none) :
    JoinI J (w.put loc v) (e :: t) g := by
  obtain ⟨order, h⟩ := h
  have hne : J.gatewayLoc ≠ loc := fun hl => hgw (by rw [← hl])
  exact ⟨order, h.keep (h.alive.put loc v hwf) (put_value_of_ne _ _ hne) hmark hsent⟩

/-- An entry that is there holds at least the variables of the split. -/
theorem JoinI.not_maybeAbsent {t : List (WEvent ι)} {g : ι → Phase} (h : JoinI J w t g)
    (hsome : w.value J.gatewayLoc ≠ none) : ¬ MaybeAbsent J.gatewayLoc w := by
  obtain ⟨order, h⟩ := h
  have hstored := h.stored fun j hj => hsome (h.removed j hj)
  rintro (hnone | hzero)
  · exact hsome hnone
  · rw [hstored] at hzero
    have hvars := congrArg Gateway.vars (Option.some.inj hzero)
    rw [J.arrivals_vars] at hvars
    cases hvars

namespace JoinInv

variable {t : List (WEvent ι)} {g : ι → Phase} {order : List ι} {i : ι}

variable (h : JoinInv J w t g order)
include h

/-- Apart from the last arrival nobody has come beyond being recorded. -/
theorem stage_lt (hi : 2 ≤ (g i).stage) {n : Nat} (hn : 2 ≤ n) (hlt : (g i).stage < n) (j : ι) :
    (g j).stage < n := by
  by_contra hj
  have hclosing : 2 ≤ (g j).stage := hn.trans (not_lt.1 hj)
  rw [h.eq_of_closing hi hclosing] at hj
  exact hj hlt

theorem stored_of_closing (hi : 2 ≤ (g i).stage) (hlt : (g i).stage < 5) :
    w.value J.gatewayLoc = some (J.arrivals order) := by
  refine h.stored fun j hj => ?_
  have := h.stage_lt hi (by omega) hlt j
  rw [hj] at this
  simp [Phase.stage] at this

variable [DecidableEq ι]

/-- **The update loop records an arrival.** -/
theorem record (hi : g i = .pending) (hopen : ¬ J.Full order) (rev : Nat) {p : Phase}
    (hp : p = .arrived ∧ ¬ J.Full (order ++ [i]) ∨ p = .closing ∧ J.Full (order ++ [i])) :
    JoinInv J (w.put J.gatewayLoc ((J.arrivals order).arrive (J.route i) (J.token i).vars))
      (⟨i, w, .update J.gatewayLoc ((J.arrivals order).arrive (J.route i) (J.token i).vars) rev,
        .ok ()⟩ :: t) (Function.update g i p) (order ++ [i]) := by
  have hvalue : (w.put J.gatewayLoc ((J.arrivals order).arrive (J.route i) (J.token i).vars)).value
      J.gatewayLoc = some (J.arrivals (order ++ [i])) := by
    rw [put_value_self, J.arrivals_append]
  exact h.commit hi hopen (h.alive.put _ _ (by nofun)) hvalue rfl rfl hp

/-- **The last arrival calls `completeGateway`.** -/
theorem mark (hi : g i = .closing) :
    JoinInv J w (⟨i, w, .mark "completeGateway", ()⟩ :: t) (Function.update g i .marked) order := by
  have hstage : (g i).stage = 2 := by rw [hi]; rfl
  have hstored := h.stored_of_closing (i := i) (by omega) (by omega)
  have hnone := h.unmarked (h.stage_lt (i := i) (by omega) (by omega) (by omega))
  have hunsent := h.unsent (h.stage_lt (i := i) (by omega) (by omega) (by omega))
  have hfull := (h.last i (by omega)).2
  refine h.advance (by omega) (by decide) h.alive (fun _ => hstored) nofun
    (fun hlt => absurd hlt (by decide)) (fun _ => ⟨⟨i, w, .mark "completeGateway", ()⟩, ?_,
    rfl, ?_⟩)
    (fun _ => ?_) fun hlt => absurd hlt (by decide)
  · simp [marks, isMark] at hnone ⊢
    exact hnone
  · exact ⟨order, hfull, hstored⟩
  · simpa [SharWorkflow.sent, sentState] using hunsent

/-- **The last arrival publishes the completion.** -/
theorem complete (hi : g i = .marked) {m : Msg} {state : WorkflowState}
    (hm : sentState .activityComplete (.publish m) (.ok ()) = some state)
    (hok : J.CompletionOk state) :
    JoinInv J (w.publish m) (⟨i, w, .publish m, .ok ()⟩ :: t) (Function.update g i .completed)
      order := by
  have hstage : (g i).stage = 3 := by rw [hi]; rfl
  have hstored := h.stored_of_closing (i := i) (by omega) (by omega)
  have hmarked := h.marked i (by omega)
  have hunsent := h.unsent (h.stage_lt (i := i) (by omega) (by omega) (by omega))
  refine h.advance (by omega) (by decide) (h.alive.publish m) (fun _ => hstored) nofun
    (fun hlt => absurd hlt (by decide)) (fun _ => ?_) (fun hlt => absurd hlt (by decide))
    fun _ => ⟨state, ?_, hok⟩
  · simpa [marks, isMark] using hmarked
  · simp [SharWorkflow.sent, hm] at hunsent ⊢
    exact hunsent

/-- **The last arrival deletes the entry.** -/
theorem delete (hi : g i = .completed) :
    JoinInv J (w.clear J.gatewayLoc) (⟨i, w, .delete J.gatewayLoc, .ok ()⟩ :: t)
      (Function.update g i .deleted) order := by
  have hstage : (g i).stage = 4 := by rw [hi]; rfl
  have hmarked := h.marked i (by omega)
  have hsent := h.sent i (by omega)
  refine h.advance (by omega) (by decide) h.alive.clear (fun hne => absurd rfl hne)
    (fun _ => clear_value_self _ _) (fun hlt => absurd hlt (by decide)) (fun _ => ?_)
    (fun hlt => absurd hlt (by decide)) fun _ => ?_
  · simpa [marks, isMark] using hmarked
  · simpa [SharWorkflow.sent, sentState] using hsent

end JoinInv

/-! ### A run -/

section Run

variable [DecidableEq ι] {F : Op → Prop} {X : Prop} {G : WGuard ι} {i : ι}
  {s₀ : World}

/-- **The circumstances of an arrival.** A run that has ended in the phase `p` with the result `r`
meets `Q p r`. -/
structure Arrival (J : Join ι) (F : Op → Prop) (X : Prop) (G : WGuard ι)
    (i : ι) (Q : Phase → Except (Bool × Err) Bool → Prop) : Prop where
  /-- the entry is there when it is first read -/
  present : ∀ {w t g r}, JoinI J w t g → g i = .pending → G ⟨i, w, .get J.gatewayLoc, r⟩ t →
    w.value J.gatewayLoc ≠ none
  /-- the arrival is not recorded when all branches have arrived before -/
  notFull : ∀ {w t g order v rev}, JoinInv J w t g order → g i = .pending →
    w.value J.gatewayLoc = some (J.arrivals order) →
    G ⟨i, w, .update J.gatewayLoc v rev, .ok ()⟩ t → ¬ J.Full order
  /-- no call fails once `completeGateway` was called -/
  afterMark : ∀ {w t g}, JoinI J w t g → 3 ≤ (g i).stage → ¬ Faulted F G i w t
  failed : ∀ {w t g p ack e}, JoinI J w t g → Faulted F G i w t → g i = p → p.stage < 3 →
    Q p (.error (ack, e))
  missing : ∀ {w t g e}, JoinI J w t g → g i = .pending → w.value J.gatewayLoc = none →
    Q .pending (.error (false, e))
  merged : ∀ order, order.Nodup → J.Full order →
    match J.lib.mergeGatewayVars (J.arrivals order) with
    | none => X
    | some (.error _) => ∀ e, Q .closing (.error (false, e))
    | some (.ok _) => True
  awaits : Q .arrived (.ok true)
  closes : Q .deleted (.ok true)

variable {Q : Phase → Except (Bool × Err) Bool → Prop} {job : WorkflowState}

/-- The arrival that completes the set of branches completes the gateway. -/
theorem safe_completeGateway (A : Arrival J F X G i Q) (hexecute : job.execute = some J.iid)
    (hinstance : job.processInstanceId = J.processInstanceId)
    (hjob : ∀ state : WorkflowState, state.vars = job.vars → J.CompletionOk state) :
    (natsProtocol F X G (JoinI J)).Safe i (fun p _ r => p = .deleted ∧ r = .ok ()) .closing s₀
      (completeGateway J.ns job).run := by
  have hmarked {s₁ s : World} {t g} (hat : At (JoinI J) i .marked s₁ s t g) :
      ¬ Faulted F G i s t := A.afterMark hat.inv (by rw [hat.ghost]; decide)
  have hcompleted {s₁ s : World} {t g} (hat : At (JoinI J) i .completed s₁ s t g) :
      ¬ Faulted F G i s t := A.afterMark hat.inv (by rw [hat.ghost]; decide)
  refine Safe.seq (safe_mark fun {s t g} hat _ => ?_)
  obtain ⟨order, h⟩ := hat.inv
  refine ⟨.marked, ⟨order, h.mark hat.ghost⟩, Safe.seq (safe_deref (fun iid hiid => ?_) ?_)⟩
  swap
  · simp [hexecute]
  obtain rfl : J.iid = iid := Option.mem_unique hexecute hiid
  rw [hinstance]
  refine Safe.seq (safe_nsKVs quietInv_joinI (fun _ => ?_) fun hat hfault _ =>
    (hmarked hat hfault).elim)
  -- the process instance records the gateway
  refine Safe.seq (safe_wrap (safe_updateObj quietInv_joinI ?_ ?_ ?_ fun hat hfault _ =>
    (hmarked hat hfault).elim))
  · exact fun hat _ _ => hat.inv.put (by nofun) (by nofun) (by rfl) (by rfl)
  · intro s t g v hat _ _
    refine hat.same (hat.inv.put (by nofun) (by nofun) (by rfl) (by rfl)) (Safe.seq (safe_wrap ?_))
    -- the completion is published and recorded
    refine Safe.seq (safe_wrap (safe_publishWorkflowState quietInv_joinI nofun ?_
      fun hat hfault _ => (hmarked hat hfault).elim))
    intro s t g time hat _
    obtain ⟨order, h⟩ := hat.inv
    refine ⟨.completed, ⟨order, h.complete hat.ghost rfl (hjob _ rfl)⟩, ?_⟩
    refine Safe.seq (safe_wrap (safe_mapError (safe_wrap (safe_recordHistory quietInv_joinI ?_
      fun hat hfault => (hcompleted hat hfault).elim))))
    intro s t g v _ hat _
    refine hat.same (hat.inv.put (by nofun) (by nofun) (by rfl) (by rfl)) (.ret ?_)
    refine safe_wrap (safe_delete quietInv_joinI (fun hat _ => ?_)
      fun hat hfault _ => (hcompleted hat hfault).elim)
    obtain ⟨order, h⟩ := hat.inv
    exact ⟨.deleted, ⟨order, h.delete hat.ghost⟩, rfl, rfl⟩
  · intro s t g hat hnone
    obtain ⟨order, h⟩ := hat.inv
    exact (h.alive.processInstance hnone).elim

/-- The result of a run whose last part has the result `r`. -/
def runResult : Except Err Unit → Except (Bool × Err) Bool
  | .ok _ => .ok true
  | .error e => .error (false, e)

/-- The last arrival merges the variables and completes the gateway. -/
theorem safe_closeGateway (A : Arrival J F X G i Q) {order : List ι} (hnodup : order.Nodup)
    (hfull : J.Full order) (hexecute : job.execute = some J.iid)
    (hinstance : job.processInstanceId = J.processInstanceId) :
    (natsProtocol F X G (JoinI J)).Safe i (fun p _ r => Q p (runResult r)) .closing s₀
      (closeGateway J.lib J.ns job (J.arrivals order)).run := by
  have hmerged := A.merged order hnodup hfull
  refine Safe.seq (Safe.seq (safe_deref (fun merged hm => ?_) fun hnone => ?_))
  · rw [hm] at hmerged
    cases merged with
    | error e => exact .ret (hmerged _)
    | ok nv =>
      refine .ret (Safe.mono (safe_completeGateway A ?_ ?_ ?_) ?_)
      · exact hexecute
      · exact hinstance
      · exact fun state hvars => ⟨order, hnodup, hfull, by rw [hm, hvars]⟩
      · rintro p _ r ⟨rfl, rfl⟩
        exact A.closes
  · rwa [hnone] at hmerged

/-- A recorded arrival waits, or completes the gateway if it is the last one. -/
theorem safe_settleArrival (A : Arrival J F X G i Q) {order : List ι} (hnodup : order.Nodup)
    {p : Phase} (hp : p = .arrived ∧ ¬ J.Full order ∨ p = .closing ∧ J.Full order) :
    (natsProtocol F X G (JoinI J)).Safe i (fun p _ r => Q p (runResult r)) p s₀
      (settleArrival J.lib J.ns { J.token i with execute := some J.iid } J.iid (some J.element)
        (J.arrivals order)).run := by
  refine Safe.seq (.ret (Safe.seq (safe_deref (fun spec hspec => ?_) ?_)))
  swap
  · simp [J.gateway_found]
  obtain rfl : J.spec = spec := Option.mem_unique J.gateway_found hspec
  dsimp only
  split
  · exact absurd ‹_› J.joins
  refine Safe.seq (safe_deref (fun expectations hexp => ?_) ?_)
  swap
  · simp [J.expects i]
  obtain rfl : ⟨J.expected⟩ = expectations := Option.mem_unique (J.expects i) hexp
  rcases hp with ⟨rfl, hfull⟩ | ⟨rfl, hfull⟩
  · refine Safe.ite (fun h => absurd h hfull) fun _ => ?_
    refine Safe.seq (safe_publishWorkflowState quietInv_joinI (by decide) ?_ ?_)
    · intro s t g time hat _
      obtain ⟨order, h⟩ := hat.inv
      exact hat.same ⟨order, h.keep (h.alive.publish _) rfl rfl rfl⟩ (.ret A.awaits)
    · exact fun hat hfault _ => A.failed hat.inv hfault hat.ghost (by decide)
  · exact Safe.ite (fun _ => safe_closeGateway A hnodup hfull rfl (J.in_instance i))
      fun h => absurd hfull h

/-- The end of a run whose arrival is the last one in `order`. -/
theorem safe_afterCommit (A : Arrival J F X G i Q) {order : List ι} (hnodup : order.Nodup)
    {p : Phase} (hp : p = .arrived ∧ ¬ J.Full order ∨ p = .closing ∧ J.Full order) {gw : Gateway}
    (hgw : J.arrivals order = gw) : (natsProtocol F X G (JoinI J)).Safe i (fun p _ r => Q p r) p s₀
      (Act.acking false (settleArrival J.lib J.ns { J.token i with execute := some J.iid } J.iid
        ((processTable J.process).lookup (J.token i).elementId) gw) >>=
          fun _ => (pure true : Handler Bool)).run := by
  rw [J.element_found i, ← hgw]
  refine Safe.seq (safe_acking ((safe_settleArrival A hnodup hp).mono ?_))
  rintro p s (e | _) hr
  · exact hr
  · exact .ret hr

/-- **One run** of `gatewayExecProcessor` keeps the invariant and ends as it should. -/
theorem safe_gatewayExecProcessor (A : Arrival J F X G i Q) :
    (natsProtocol F X G (JoinI J)).Safe i (fun p _ r => Q p r) .pending s₀ (J.runs i) := by
  have hfailed {s₁ s : World} {t g ack e} (hat : At (JoinI J) i .pending s₁ s t g)
      (hfault : Faulted F G i s t) : Q .pending (.error (ack, e)) :=
    A.failed hat.inv hfault hat.ghost (by decide)
  -- the process instance is alive and its workflow is known
  refine Safe.seq (safe_acking (safe_attempt (safe_hasValidProcess quietInv_joinI ?_ ?_ ?_ ?_)))
  rotate_left
  · intro s t g hat hnone
    obtain ⟨order, h⟩ := hat.inv
    rw [J.in_execution i] at hnone
    exact (h.alive.execution hnone).elim
  · intro s t g hat hnone
    obtain ⟨order, h⟩ := hat.inv
    rw [J.in_instance i] at hnone
    exact (h.alive.processInstance hnone).elim
  · exact fun hat hfault _ => .ret (hfailed hat hfault)
  intro s₁ t₁ g₁ v v' hat₁ hv
  refine Safe.seq (safe_acking (safe_mapError (safe_getWorkflow (W := (· = J.workflow))
    quietInv_joinI ?_ ?_ ?_ ?_ ?_ ?_)))
  · rintro s t g wf ⟨order, h⟩ hwf
    rw [J.in_workflow i] at hwf
    exact h.alive.cache wf hwf
  · rintro s t g wf ⟨order, h⟩ hwf
    rw [J.in_workflow i, h.alive.workflow] at hwf
    exact (Option.some.inj hwf).symm
  · rintro s t g wf s' ⟨order, h⟩ rfl henv
    rw [J.in_workflow i] at henv ⊢
    refine ⟨order, h.keep (h.alive.cacheSet henv) ?_ rfl rfl⟩
    rcases henv with rfl | rfl <;> rfl
  rotate_left
  · intro s t g hat hnone
    obtain ⟨order, h⟩ := hat.inv
    rw [J.in_workflow i, h.alive.workflow] at hnone
    cases hnone
  · exact fun hat hfault _ => hfailed hat hfault
  rintro s₂ wf - rfl
  refine Safe.seq (safe_acking (safe_deref (fun pr hpr => ?_) ?_))
  swap
  · simp [J.process_found i]
  obtain rfl : J.process = pr := Option.mem_unique (J.process_found i) hpr
  -- the token names its gateway instance and its branch
  refine Safe.seq (safe_acking (safe_deref (fun found hfound => ?_) ?_))
  swap
  · simp [J.getGatewayInstanceID_token i]
  obtain rfl : (.ok (J.iid, J.route i) : Except Err (String × String)) = found :=
    Option.mem_unique (J.getGatewayInstanceID_token i) hfound
  refine Safe.seq (.ret (Safe.seq (safe_acking (safe_nsKVs quietInv_joinI (fun _ => ?_)
    fun hat hfault _ => hfailed hat hfault))))
  -- the arrival is recorded
  refine Safe.seq (safe_acking (safe_wrap (safe_updateObj quietInv_joinI ?_ ?_ ?_
    fun hat hfault _ => hfailed hat hfault)))
  · rintro s t g - ⟨s₁, t₁, g₁, r, hat₁, habsent, hread⟩ -
    exact (hat₁.inv.not_maybeAbsent (A.present hat₁.inv hat₁.ghost hread) habsent).elim
  · intro s t g v hat hv hguard
    obtain ⟨order, h⟩ := hat.inv
    have hstored := h.stored fun j hj => by
      rw [h.removed j hj] at hv
      cases hv
    obtain rfl : J.arrivals order = v := Option.mem_unique hstored hv
    have hopen := A.notFull h hat.ghost hstored hguard
    by_cases hfull : J.Full (order ++ [i])
    · have hrecord := h.record hat.ghost hopen (s.revision J.gatewayLoc) (.inr ⟨rfl, hfull⟩)
      exact ⟨.closing, ⟨_, hrecord⟩, safe_afterCommit A hrecord.nodup (.inr ⟨rfl, hfull⟩)
        (J.arrivals_append order i)⟩
    · have hrecord := h.record hat.ghost hopen (s.revision J.gatewayLoc) (.inl ⟨rfl, hfull⟩)
      exact ⟨.arrived, ⟨_, hrecord⟩, safe_afterCommit A hrecord.nodup (.inl ⟨rfl, hfull⟩)
        (J.arrivals_append order i)⟩
  · exact fun hat hnone => A.missing hat.inv hat.ghost hnone

end Run

end SharWorkflow
