import SharWorkflow.Engine.Conduct
import SharWorkflow.Launch.Keeps

/-!
# The conduct of a launch

Rules for the functions that start a process, for conducts whose state moves with publications only
(`Conduct.Unmoved`): what a launch reads and writes leaves such a state alone, so the rules only ask
for the objects that it writes and the messages that it sends.
-/

namespace SharWorkflow

open Concurrent Discipline

/-- The call neither publishes nor deletes anything. -/
def Op.IsStill : Op → Prop
  | .publish _ | .delete _ => False
  | _ => True

namespace Conduct

variable {L : Type} {C : Conduct L} {l : L} {ns : String} {E : L → Prop}

/-- Reads, writes and failures do not move the state of the conduct. -/
structure Unmoved (C : Conduct L) : Prop where
  noted : ∀ l loc, C.noted l loc = l
  wrote : ∀ l loc, C.wrote l loc = l
  failed : ∀ l, C.failed l = l

/-- The calls that the conduct allows in the state, as far as they leave it alone. -/
def still (C : Conduct L) (l : L) : Discipline Op Ans Unit :=
  ⟨fun _ o => C.may l o ∧ o.IsStill, fun _ o r _ => C.step l o r l⟩

theorem allowsRecords_still (hexecution : ∀ id v, C.mayWrite l ⟨ns, .wfExecution, id⟩ v) :
    AllowsRecords (C.still l) ns where
  kvsFor := ⟨trivial, trivial⟩
  get _ _ := ⟨trivial, trivial⟩
  newId := ⟨trivial, trivial⟩
  cacheGet _ := ⟨trivial, trivial⟩
  cacheSet id wf h := by
    obtain ⟨entry, hstep, rfl⟩ := h
    exact ⟨C.holds_defines (holds_of_step hstep), trivial⟩
  ensureBucket _ := ⟨trivial, trivial⟩
  execution id v := ⟨hexecution id v, trivial⟩
  update id v _ := ⟨hexecution id v, trivial⟩

namespace Unmoved

variable (hC : C.Unmoved)
include hC

theorem leads_getWorkflow {id : String} {R : L → Workflow → Prop}
    (hok : ∀ wf, C.defines id wf → R l wf) (herror : E l) : C.Leads R E l (getWorkflow ns id) := by
  refine (keeps_getWorkflow (hC.noted _ _)).2 ⟨hok, fun _ => herror, fun _ text => ?_⟩
  rw [hC.failed]
  exact ⟨herror, herror⟩

theorem leads_publish {subject : Subject} {state : WorkflowState} {R : L → WorkflowState → Prop}
    (hsubject : subject ≠ .jobUserTaskExecute)
    (hmay : ∀ t, C.mayPublish l (stateMsg ns subject state t 0))
    (hok : ∀ t, R (C.published l (stateMsg ns subject state t 0)) (state.stamped t))
    (herror : E l) : C.Leads R E l (publishWorkflowState ns subject state) := by
  refine (keeps_publishWorkflowState hsubject).2 fun t => ⟨hmay t, hok t, fun _ text => ?_⟩
  rw [hC.failed]
  exact herror

/-- A call that neither publishes nor deletes anything. -/
theorem step_eq {o : Op} {r : Ans o} {l' : L} (ho : o.IsStill) (h : C.step l o r l') : l' = l := by
  cases o with
  | get loc =>
    rcases h with ⟨_, -, -, rfl⟩ | ⟨-, -, rfl⟩ | ⟨-, -, rfl⟩
    · exact hC.noted l loc
    · rfl
    · exact hC.failed l
  | put loc =>
    rcases h with ⟨-, rfl⟩ | ⟨-, -, rfl⟩
    · exact hC.wrote l loc
    · exact hC.failed l
  | create loc | update loc =>
    rcases h with ⟨-, rfl⟩ | ⟨-, rfl⟩ | ⟨-, -, rfl⟩
    · exact hC.wrote l loc
    · rfl
    · exact hC.failed l
  | keys ns b =>
    rcases h with ⟨-, rfl⟩ | ⟨-, rfl⟩ | ⟨-, -, rfl⟩
    · rfl
    · rfl
    · exact hC.failed l
  | kvsFor | searchKeys | createConsumer | ensureBucket =>
    rcases h with ⟨-, rfl⟩ | ⟨-, -, rfl⟩
    · rfl
    · exact hC.failed l
  | newId => exact h.2.2
  | mapOrder | cacheGet | mark => exact h.2
  | now | cacheSet | fetch | ackEntry => exact h
  | delete | publish => exact ho.elim
  | panic => exact r.elim

/-- A program that neither publishes nor deletes anything leaves the state alone. -/
theorem leads_of_yields {α ε : Type} {Q : α → Prop} {x : ExceptT ε P α}
    (h : Yields (C.still l) Q x) : C.Leads (fun l' a => l' = l ∧ Q a) (· = l) l x := by
  have hkeeps : C.Keeps (fun l' r => l' = l ∧ Meets Q (fun _ => True) r) l x.run := by
    refine Ensures.embed (I := (· = l)) ?_ ?_ h rfl
    · rintro l' o rfl ho
      exact ho.1
    · rintro l' o r l'' rfl ho hr
      obtain rfl := hC.step_eq ho.2 hr
      exact ⟨hr, rfl⟩
  refine hkeeps.mono fun l' r hr => ?_
  cases r with
  | ok a => exact hr
  | error e => exact hr.1

/-- A traversal sends messages that keep up `I`. -/
theorem leads_traverse_of_inv {lib : Lib} {trackingID : TrackingID} {outbound : Option Targets}
    {els : GoMap Element} {state : WorkflowState} {I : L → Prop} (hl : I l)
    (hgateway : ∀ id v, C.mayWrite l ⟨ns, .wfGateway, id⟩ v) (hsend : ∀ l, I l → ∀ state t,
      C.mayPublish l (stateMsg ns .traversalExecute state t 0) ∧
        I (C.published l (stateMsg ns .traversalExecute state t 0))) (herror : ∀ l, I l → E l) :
    C.Leads (fun l _ => I l) E l (traverse lib ns trackingID outbound els state) := by
  have hsubject : Subject.traversalExecute ≠ .jobUserTaskExecute := nofun
  refine leads_traverse (fun _ => hl) (fun _ => hgateway _ _) ?_ (herror l hl)
    fun _ => (hC.failed l).symm ▸ herror l hl
  intro out targets elem reciprocalId iid st branches _ _ _ _ _ _ _
  rw [opened_eq (hC.wrote _ _)]
  refine Keeps.forM (fun _ l => I l) _ hl (fun branchID rest l hl => ?_) fun _ hl => hl
  have hbranch : C.Leads (fun l _ => I l) E l (sendBranch ns trackingID els st reciprocalId iid
      branchID ((targets.lookup branchID).getD "")) := by
    refine leads_seq.2 (keeps_newId.2 fun newID _ _ => ?_)
    refine leads_seq.2 (keeps_deref.2 fun target _ => leads_seq.2 (keeps_mapError.2 ?_))
    simp only [outcome_mapError]
    refine hC.leads_getWorkflow (fun wf _ => ?_) (herror l hl)
    refine leads_seq.2 (keeps_deref.2 fun pr _ => leads_seq.2 (keeps_deref.2 fun named _ => ?_))
    refine leads_seq.2 (keeps_deref.2 fun solitary _ => leads_seq.2 (keeps_wrap.2 ?_))
    simp only [outcome_mapError]
    exact hC.leads_publish hsubject (fun t => (hsend l hl _ t).1)
      (fun t => keeps_pure.2 (hsend l hl _ t).2) (herror l hl)
  refine hbranch.mono fun l r hr => ?_
  cases r with
  | ok _ => exact hr
  | error e => exact hr

end Unmoved

end Conduct

end SharWorkflow
