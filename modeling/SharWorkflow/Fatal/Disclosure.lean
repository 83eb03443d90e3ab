import SharWorkflow.Api.Endpoints
import SharWorkflow.Engine.Keeps
import SharWorkflow.Nats.Footprint
import SharWorkflow.Registry.Queries

/-!
# Who sees a fatal error

The fatal errors of a server can be asked for, by parts of their keys. Before anything is read the
caller is authorized, for the workflow that the first specific part of the request stands for: the
name itself, or the name that is found with the workflow, the execution or the process instance.
What is read afterwards is whatever has a key that the parts match.

* `World.Identifies`: the names that a request may stand for.
* `FatalErrorsGuarded`: fatal errors are read only once the caller is authorized, and those that are
  sent are errors of the workflow that the caller is authorized for.
* `fatalErrorsGuarded_iff`: this is so **if and only if** the request matches no key of an error of
  another workflow.
* `isBelow_fatalErrorKey`: where no name has a dot, a key matches if its parts do. Then a request
  with a specific name is harmless (`matchesOnly_of_name`). A request for an execution may not be
  (`payments_disclosed`), because the processes that are called in an execution may belong to other
  workflows.
-/

namespace SharWorkflow

open Concurrent Discipline List World

-- sequences are split by `ends_seq`
attribute [-simp] ExceptT.run_bind

variable {F : Op → Prop} {X : Prop} {w : World} {a : Auth} {ns : String}
  {req : GetFatalErrorRequest}

/-! ### The keys -/

theorem mem_keysBelow {b : Bucket} {pre key : String} :
    key ∈ w.keysBelow ns b pre ↔ (⟨ns, b, key⟩ : Loc) ∈ w.written ∧ isBelow pre key = true := by
  simp only [World.keysBelow, mem_mergeSort, mem_dedup, mem_map, mem_filter,
    decide_eq_true_eq]
  constructor
  · rintro ⟨⟨ns', b', key'⟩, ⟨hmem, rfl, rfl, hbelow⟩, rfl⟩
    exact ⟨hmem, hbelow⟩
  · rintro ⟨hmem, hbelow⟩
    exact ⟨_, ⟨hmem, rfl, rfl, hbelow⟩, rfl⟩

/-- The keys that are not deleted are left, unless a lookup fails. -/
theorem ends_excludeDeleted {b : Bucket} {keys : List String}
    {Q : World → List String × Option Err → Prop} (hfail : ∀ live e, Q w (live, some e)) :
    Ends (env F) X Q w (excludeDeleted ns b keys) ↔
      Q w (keys.filter fun k => (w.value ⟨ns, b, k⟩).isSome, none) := by
  induction keys generalizing Q with
  | nil => exact ends_ret
  | cons k keys ih =>
    have hrest : ∀ r : Except Err (Entry (⟨ns, b, k⟩ : Loc).Val),
        Ends (env F) X Q w ((excludeDeleted ns b keys).bind fun found =>
          .ret (noteKey k r found)) ↔
        Q w (noteKey k r (keys.filter fun k => (w.value ⟨ns, b, k⟩).isSome, none)) := by
      intro r
      rw [ends_bind]
      simp only [ends_ret]
      refine ih (Q := fun w found => Q w (noteKey k r found)) fun live e => ?_
      cases r with
      | ok entry => exact hfail _ e
      | error e' =>
        rw [noteKey]
        split <;> exact hfail _ e
    rw [excludeDeleted, ends_bind, ends_kvGet]
    simp only [hrest]
    rcases hvalue : w.value ⟨ns, b, k⟩ with _ | v
    · rw [filter_cons_of_neg (by simp [hvalue])]
      simp [noteKey, hfail]
    · rw [filter_cons_of_pos (by simp [hvalue])]
      simp only [noteKey, reduceCtorEq, false_imp_iff, true_and, Option.some.injEq, forall_eq']
      constructor
      · exact fun h => h.1 false (by simp)
      · exact fun h => ⟨fun _ _ => h, fun _ _ => hfail _ _⟩

theorem ends_keyPrefixSearchLive {b : Bucket} {pre : String}
    {Q : World → Except Err (List String) → Prop} (hfail : ∀ e, Q w (.error e)) :
    Ends (env F) X Q w (keyPrefixSearchLive ns b pre).run ↔
      Q w (.ok ((w.keysBelow ns b pre).filter fun k => (w.value ⟨ns, b, k⟩).isSome)) := by
  rw [keyPrefixSearchLive, ends_seq]
  refine (ends_perform (o := .searchKeys ns b pre) (by simp)).trans ?_
  have hlive {keys : List String} {answer : List String × Option Err → Act (List String)}
      (hfailed : ∀ live e, answer (live, some e) = throw (.wrap "get key value" e))
      (hfound : ∀ live, answer (live, none) = pure live) :
      Ends (env F) X Q w (liftM (excludeDeleted ns b keys) >>= answer).run ↔
        Q w (.ok (keys.filter fun k => (w.value ⟨ns, b, k⟩).isSome)) := by
    rw [ends_seq, ends_liftM, ends_excludeDeleted]
    · dsimp only
      rw [hfound]
      exact ends_pure
    · intro live e
      dsimp only
      rw [hfailed]
      exact ends_throw.2 (hfail _)
  constructor
  · exact fun h => (hlive (fun _ _ => rfl) fun _ => rfl).1 (h _ w ⟨rfl, .inl rfl⟩)
  · rintro h r w' ⟨rfl, rfl | ⟨-, text, rfl⟩⟩
    · exact (hlive (fun _ _ => rfl) fun _ => rfl).2 h
    · exact hfail _

/-! ### What is sent -/

variable {R : FatalError → Prop}

/-- Fatal errors that are there are all sent, unless a lookup fails. The condition `C` is about
those that were sent before. -/
theorem ends_streamFatalErrors {C : Prop} {keys : List String}
    (hkeys : ∀ k ∈ keys, w.value ⟨ns, .wfFatalError, k⟩ ≠ none) :
    Ends (env F) X (fun _ s => C ∧ ∀ f ∈ s.sent, R f) w (streamFatalErrors ns keys) ↔
      C ∧ ∀ k ∈ keys, ∀ f, w.value ⟨ns, .wfFatalError, k⟩ = some f → R f := by
  induction keys generalizing C with
  | nil => exact ends_ret.trans (by simp)
  | cons k keys ih =>
    obtain ⟨hk, hrest⟩ := forall_mem_cons.1 hkeys
    obtain ⟨v, hv⟩ := Option.ne_none_iff_exists'.1 hk
    have hnext : Ends (env F) X (fun _ s => C ∧ ∀ f ∈ s.sent, R f) w
        ((streamFatalErrors ns keys).bind fun rest => .ret { rest with sent := v :: rest.sent }) ↔
        (C ∧ R v) ∧ ∀ k ∈ keys, ∀ f, w.value ⟨ns, .wfFatalError, k⟩ = some f → R f := by
      rw [ends_bind, ← ih hrest]
      simp only [ends_ret, forall_mem_cons, and_assoc]
    rw [streamFatalErrors, ends_bind, ends_loadObj]
    simp only [hv, reduceCtorEq, false_imp_iff, true_and, Option.some.injEq, forall_eq', hnext,
      forall_mem_cons, ends_ret, not_mem_nil, implies_true, and_true]
    constructor
    · rintro ⟨⟨⟨hC, hP⟩, hall⟩, -⟩
      exact ⟨hC, hP, hall⟩
    · rintro ⟨hC, hP, hall⟩
      exact ⟨⟨⟨hC, hP⟩, hall⟩, fun _ _ => hC⟩

/-- **What is sent**: the stored fatal errors whose keys match. -/
theorem ends_getFatalErrors {pre : String} (hlisted : w.Listed) :
    Ends (env F) X (fun _ s => ∀ f ∈ s.sent, R f) w (getFatalErrors ns pre) ↔
      ∀ key f, w.value ⟨ns, .wfFatalError, key⟩ = some f → isBelow pre key = true → R f := by
  have hstream : Ends (env F) X (fun _ s => ∀ f ∈ s.sent, R f) w
      (streamFatalErrors ns ((w.keysBelow ns .wfFatalError pre).filter fun k =>
        (w.value ⟨ns, .wfFatalError, k⟩).isSome)) ↔
      ∀ key f, w.value ⟨ns, .wfFatalError, key⟩ = some f → isBelow pre key = true → R f := by
    have hkeys : ∀ k ∈ (w.keysBelow ns .wfFatalError pre).filter fun k =>
        (w.value ⟨ns, .wfFatalError, k⟩).isSome, w.value ⟨ns, .wfFatalError, k⟩ ≠ none :=
      fun k hk => Option.isSome_iff_ne_none.1 (mem_filter.1 hk).2
    have hall := ends_streamFatalErrors (F := F) (X := X) (R := R) (C := True) hkeys
    simp only [true_and] at hall
    rw [hall]
    constructor
    · intro h key f hf hbelow
      have hne : w.value ⟨ns, .wfFatalError, key⟩ ≠ none := by simp [hf]
      refine h key (mem_filter.2 ⟨mem_keysBelow.2 ⟨hlisted _ hne, hbelow⟩, ?_⟩) f hf
      exact Option.isSome_iff_ne_none.2 hne
    · intro h k hk f hf
      exact h k f hf (mem_keysBelow.1 (mem_filter.1 hk).1).2
  rw [getFatalErrors, ends_bind, ends_wrap, ends_kvsFor]
  simp only [mapError_ok, mapError_error, ends_ret, not_mem_nil, false_imp_iff, implies_true,
    and_true]
  rw [ends_bind, ends_wrap, ends_keyPrefixSearchLive]
  · exact hstream
  · exact fun e => ends_ret.2 (by simp)

/-! ### Who is authorized -/

/-- **The workflow that the request stands for** may go by the name. A workflow is found in the
cache or in the store. -/
def World.Identifies (w : World) (ns : String) (req : GetFatalErrorRequest) (name : String) :
    Prop :=
  if isSpecific req.wfName then req.wfName = name
  else if isSpecific req.wfId then ∃ wf : Workflow,
    (w.cache req.wfId = some wf ∨ w.value ⟨ns, .wf, req.wfId⟩ = some wf) ∧ wf.name = name
  else if isSpecific req.executionId then ∃ execution : Execution,
    w.value ⟨ns, .wfExecution, req.executionId⟩ = some execution ∧ execution.workflowName = name
  else if isSpecific req.processInstanceId then ∃ pi : ProcessInstance,
    w.value ⟨ns, .wfProcessInstance, req.processInstanceId⟩ = some pi ∧ pi.workflowName = name
  else False

/-- `GetWorkflow`, for a condition that takes no notice of the cache and of errors. -/
theorem ends_getWorkflow_found {id : String} {Q : World → Except Err Workflow → Prop}
    (hfail : ∀ c e, Q (w.withCache c) (.error e))
    (hcache : ∀ c wf, Q (w.withCache c) (.ok wf) ↔ Q w (.ok wf)) :
    Ends (env F) X Q w (getWorkflow ns id).run ↔
      ∀ wf : Workflow, (w.cache id = some wf ∨ w.value ⟨ns, .wf, id⟩ = some wf) → Q w (.ok wf) := by
  rw [ends_getWorkflow, loadWorkflow, ends_loadFor ⟨ns, .wf, id⟩]
  have hput (wf : Workflow) := hcache (Function.update w.cache id (some wf)) wf
  have herror (e : Err) : Q w (.error e) := hfail w.cache e
  simp [hput, herror, or_imp, forall_and]

/-- **The authorization**, for a condition that takes no notice of the cache and of errors. -/
theorem ends_authorizeFatalErrors {Q : World → Except Err (Option String) → Prop}
    (hfail : ∀ c e, Q (w.withCache c) (.error e))
    (hcache : ∀ c name, Q (w.withCache c) (.ok name) ↔ Q w (.ok name)) :
    Ends (env F) X Q w (authorizeFatalErrors a ns req).run ↔
      ((∀ segment ∈ req.segments, isSpecific segment = false) → Q w (.ok none)) ∧
        ∀ name, w.Identifies ns req name → a.grants name = true → Q w (.ok (some name)) := by
  have hrefused : ∀ e, Q w (.error e) := fun e => hfail w.cache e
  rw [authorizeFatalErrors, ends_wrap]
  simp only [World.Identifies, GetFatalErrorRequest.segments, forall_mem_cons,
    not_mem_nil, false_imp_iff, implies_true, and_true]
  by_cases hname : isSpecific req.wfName = true
  · simp [hname, authForNamedWorkflow, ends_seq, hrefused]
  by_cases hid : isSpecific req.wfId = true
  · simp only [hname, hid, if_true, if_false, authForWorkflowId, ends_seq, ends_wrap, ends_pure,
      Bool.false_eq_true]
    rw [ends_getWorkflow_found]
    · simp [hrefused]
    · exact fun c e => hfail c _
    · intro c wf
      simp [hfail, hrefused, hcache]
  by_cases hexecution : isSpecific req.executionId = true
  · simp [hname, hid, hexecution, authFromExecutionID, ends_seq, hrefused, getExecution,
      ends_loadFor ⟨_, .wfExecution, _⟩]
  by_cases hinstance : isSpecific req.processInstanceId = true
  · simp [hname, hid, hexecution, hinstance, authFromProcessInstanceID, ends_seq, hrefused,
      getProcessInstance, ends_loadFor ⟨_, .wfProcessInstance, _⟩]
  · simp [hname, hid, hexecution, hinstance]

/-! ### Keys without dots -/

/-- The text is a single token of a subject. -/
def IsToken (s : String) : Prop := '.' ∉ s.toList

instance (s : String) : Decidable (IsToken s) := inferInstanceAs (Decidable (_ ∉ _))

theorem subjectTokens_eq {s : String} (h : IsToken s) : subjectTokens s = [s.toList] := by
  refine splitOnP_eq_singleton fun c hc => ?_
  have hne : c ≠ '.' := fun heq => h (heq ▸ hc)
  simpa using hne

theorem subjectTokens_append {s rest : String} (h : IsToken s) :
    subjectTokens (s ++ "." ++ rest) = s.toList :: subjectTokens rest := by
  have htoList : (s ++ "." ++ rest).toList = s.toList ++ '.' :: rest.toList := by simp
  rw [subjectTokens, htoList]
  refine splitOnP_append_cons_of_forall_mem (fun c hc => ?_) '.' (by simp) _
  have hne : c ≠ '.' := fun heq => h (heq ▸ hc)
  simpa using hne

/-- A part of a request matches a part of a key. -/
def segmentMatches (segment part : String) : Prop := isSpecific segment = true → segment = part

theorem subjectTokens_ne_nil (s : String) : subjectTokens s ≠ [] := splitOnP_ne_nil _ _

/-- One token of a pattern. -/
theorem tokenMatches_iff {segment part : String} :
    ((if segment = "" then "*" else segment).toList == ['*'] ||
      (if segment = "" then "*" else segment).toList == part.toList) = true ↔
      segmentMatches segment part := by
  have hstar : "*".toList = ['*'] := rfl
  rw [segmentMatches, isSpecific, Bool.or_eq_true, beq_iff_eq, beq_iff_eq, ← hstar,
    String.toList_inj, String.toList_inj, decide_eq_true_eq]
  by_cases hempty : segment = ""
  · simp [hempty]
  · rw [if_neg hempty]
    by_cases hany : segment = "*"
    · simp [hany]
    · simp [hempty, hany]

/-- The request is made of tokens. -/
def GetFatalErrorRequest.Tokens (req : GetFatalErrorRequest) : Prop :=
  ∀ segment ∈ req.segments, IsToken segment

/-- The parts of the key of a failed job are tokens. -/
structure WorkflowState.Tokens (state : WorkflowState) : Prop where
  workflowName : IsToken state.workflowName
  workflowId : IsToken state.workflowId
  executionId : IsToken state.executionId
  processInstanceId : IsToken state.processInstanceId

/-- **A key of tokens matches** if its parts do. -/
theorem isBelow_fatalErrorKey {state : WorkflowState} (hreq : req.Tokens) (hstate : state.Tokens) :
    isBelow req.fatalErrorKeyPrefixBuilder (fatalErrorKey state) = true ↔
      segmentMatches req.wfName state.workflowName ∧ segmentMatches req.wfId state.workflowId ∧
        segmentMatches req.executionId state.executionId ∧
          segmentMatches req.processInstanceId state.processInstanceId := by
  let part : String → String := fun segment => if segment = "" then "*" else segment
  have hpart : ∀ segment, IsToken segment → IsToken (part segment) := by
    intro segment h
    by_cases hempty : segment = ""
    · simp only [part, if_pos hempty]
      decide
    · simpa only [part, if_neg hempty] using h
  simp only [GetFatalErrorRequest.Tokens, GetFatalErrorRequest.segments, forall_mem_cons] at hreq
  obtain ⟨hname, hid, hexecution, hinstance, -⟩ := hreq
  have hpre : req.fatalErrorKeyPrefixBuilder = part req.wfName ++ "." ++ (part req.wfId ++ "." ++
      (part req.executionId ++ "." ++ part req.processInstanceId)) := by
    simp only [← String.append_assoc]
    rfl
  have hkey : fatalErrorKey state = state.workflowName ++ "." ++ (state.workflowId ++ "." ++
      (state.executionId ++ "." ++ (state.processInstanceId ++ "." ++ state.elementId))) := by
    simp only [fatalErrorKey, String.append_assoc]
  rw [isBelow, hpre, hkey]
  simp only [subjectTokens_append, subjectTokens_eq, hpart, hname, hid, hexecution, hinstance,
    hstate.workflowName, hstate.workflowId, hstate.executionId, hstate.processInstanceId]
  simp only [tokensBelow, part, Bool.and_eq_true, tokenMatches_iff, Bool.not_eq_true',
    isEmpty_eq_false_iff, ne_eq, subjectTokens_ne_nil, not_false_eq_true, and_true]

/-! ### Guarded fatal errors -/

/-- The call reads fatal errors, or looks for them. -/
def Op.readsFatalErrors : Op → Bool
  | .get l => l.bucket = .wfFatalError
  | .searchKeys _ b _ => b = .wfFatalError
  | _ => false

/-- The fatal errors that are sent are errors of the workflow that was authorized. -/
def SendsOwn (r : Except Err (String × Stream FatalError)) : Prop :=
  ∀ name s, r = .ok (name, s) → ∀ f ∈ s.sent, f.workflowState.workflowName = name

/-- Fatal errors are read only once the caller is authorized for the workflow that the request
stands for, and those that are sent are errors of the workflow that was authorized. -/
structure FatalErrorsGuarded (F : Op → Prop) (a : Auth) (ns : String) (w : World)
    (req : GetFatalErrorRequest) : Prop where
  reads : ∀ c, Run (env F) (.start w fun _ : Unit => (apiGetFatalErrors a ns req).run) c →
    ∀ e ∈ c.trace, e.op.readsFatalErrors = true →
      ∃ name, w.Identifies ns req name ∧ a.grants name = true
  /-- a request that is not specific at all makes the server panic -/
  sends : Ends (env F) True (fun _ r => SendsOwn r) w (apiGetFatalErrors a ns req).run

/-- The calls that read no fatal errors, and write nothing at all. -/
def withoutFatalErrors : Footprint where
  reads l := l.bucket ≠ .wfFatalError
  writes _ _ := False
  lists b := b ≠ .wfFatalError

theorem not_readsFatalErrors {o : Op} (h : o.within withoutFatalErrors) :
    o.readsFatalErrors = false := by
  cases o with
  | get l => exact decide_eq_false h
  | searchKeys ns b pre => exact decide_eq_false h
  | _ => rfl

theorem touches_authorized {T : Footprint} {name : String} : Touches T (authorized a name) := by
  refine Yields.andThen (Q := fun _ => True) (Yields.mapError ?_) fun _ => yields_pure trivial
  unfold authorize
  split
  · exact yields_throw _
  · exact yields_pure trivial
  · split
    · exact yields_pure trivial
    · exact yields_throw _

/-- The authorization reads no fatal errors. -/
theorem touches_authorizeFatalErrors :
    Touches withoutFatalErrors (authorizeFatalErrors a ns req) := by
  have hauthorized (name : String) : Touches withoutFatalErrors (authorized a name) :=
    touches_authorized
  have hread (b : Bucket) {key : String} (hb : b ≠ .wfFatalError) :
      withoutFatalErrors.discipline.may () (.get ⟨ns, b, key⟩) := hb
  unfold authorizeFatalErrors
  refine Yields.wrap ?_
  split
  · exact (hauthorized _).andThen fun _ => yields_pure trivial
  split
  · have hworkflow : Touches withoutFatalErrors (getWorkflow ns req.wfId) :=
      (yields_getWorkflow trivial trivial (hread .wf nofun) fun _ _ => trivial).any
    exact (hworkflow.wrap.andThen fun _ => touches_authorized).andThen fun _ => yields_pure trivial
  split
  · have hexecution : Touches withoutFatalErrors (getExecution ns req.executionId) :=
      (yields_loadFor trivial (hread .wfExecution nofun)).any
    have hauth : Touches withoutFatalErrors (authFromExecutionID a ns req.executionId) :=
      hexecution.wrap.andThen fun _ => (hauthorized _).andThen fun _ => yields_pure trivial
    exact hauth.andThen fun _ => yields_pure trivial
  split
  · have hinstance : Touches withoutFatalErrors (getProcessInstance ns req.processInstanceId) :=
      (yields_loadFor trivial (hread .wfProcessInstance nofun)).any
    have hauth : Touches withoutFatalErrors
        (authFromProcessInstanceID a ns req.processInstanceId) :=
      hinstance.wrap.andThen fun _ => (hauthorized _).andThen fun _ => yields_pure trivial
    exact hauth.andThen fun _ => yields_pure trivial
  · exact yields_pure trivial

theorem identifies_of_exec {w' : World} {name : String}
    (h : Exec (env F) w (authorizeFatalErrors a ns req).run w' (.ok (some name))) :
    w.Identifies ns req name ∧ a.grants name = true := by
  have hends : Ends (env F) True (fun _ r => ∀ name, r = .ok (some name) →
      w.Identifies ns req name ∧ a.grants name = true) w (authorizeFatalErrors a ns req).run := by
    refine (ends_authorizeFatalErrors (fun _ _ => nofun) fun _ _ => Iff.rfl).2
      ⟨fun _ => nofun, fun name hname hgrants name' h => ?_⟩
    cases h
    exact ⟨hname, hgrants⟩
  exact hends.exec h name rfl

/-- In a run of the authorization alone no fatal errors are read. -/
theorem readsFatalErrors_of_run {c : Config Unit Op Ans World (Except Err (Option String))}
    (hrun : Run (env F) (.start w fun _ => (authorizeFatalErrors a ns req).run) c) :
    ∀ e ∈ c.trace, e.op.readsFatalErrors = false := by
  intro e he
  have hadmits : withoutFatalErrors.discipline.Admits (env F) := fun _ _ => ⟨(), trivial⟩
  obtain ⟨_, hwithin⟩ := Keeps.run (i := ()) hadmits (by exact touches_authorizeFatalErrors) hrun e
    he rfl
  exact not_readsFatalErrors hwithin

/-- A program that has panicked makes no further step. -/
theorem run_panic {α : Type} {s : World} {t : List (WEvent Unit)} {k : Empty → P α}
    {c : Config Unit Op Ans World α} (hrun : Run (env F) ⟨s, fun _ => .call .panic k, t⟩ c) :
    c = ⟨s, fun _ => .call .panic k, t⟩ := by
  rcases Relation.ReflTransGen.cases_head hrun with rfl | ⟨c', hstep, -⟩
  · rfl
  · obtain ⟨o, k', r, s', hcall, henv, -⟩ | ⟨_, _, _, _, _, hloop, -⟩ := step_alone.1 hstep
    · cases hcall
      exact r.elim
    · cases hloop

/-- Fatal errors are read only once the caller is authorized. -/
theorem authorized_of_read {c : Config Unit Op Ans World (Except Err (String × Stream FatalError))}
    (hrun : Run (env F) (.start w fun _ : Unit => (apiGetFatalErrors a ns req).run) c)
    {e : WEvent Unit} (he : e ∈ c.trace) (hread : e.op.readsFatalErrors = true) :
    ∃ name, w.Identifies ns req name ∧ a.grants name = true := by
  cases hvalid : req.validateGetFatalErrorRequest with
  | error err =>
    have hprog : (apiGetFatalErrors a ns req).run = .ret (.error err) := by
      rw [apiGetFatalErrors, hvalid]
      rfl
    rw [hprog] at hrun
    rw [run_ret hrun] at he
    exact absurd he not_mem_nil
  | ok _ =>
    have hprog : (apiGetFatalErrors a ns req).run = (authorizeFatalErrors a ns req).run.bind
        (ExceptT.bindCont (fatalErrorsFor ns req)) := by
      rw [apiGetFatalErrors, hvalid]
      rfl
    rw [hprog] at hrun
    rcases run_bind hrun with ⟨s', q, t, rfl, hfirst⟩ | ⟨s', r, t, hfirst, hrest⟩
    · rw [readsFatalErrors_of_run hfirst e he] at hread
      cases hread
    · have hexec := exec_of_run hfirst rfl
      have hread₁ : e ∉ t := fun he' => by
        rw [readsFatalErrors_of_run hfirst e he'] at hread
        cases hread
      match r with
      | .ok (some name) => exact ⟨name, identifies_of_exec hexec⟩
      | .error err =>
        rw [run_ret hrest] at he
        exact absurd he hread₁
      | .ok none =>
        rw [run_panic hrest] at he
        exact absurd he hread₁

theorem not_identifies_of_invalid {err : Err} (h : req.validateGetFatalErrorRequest = .error err)
    (name : String) : ¬ w.Identifies ns req name := by
  have hnone : ∀ segment ∈ req.segments, isSpecific segment = false := by
    unfold GetFatalErrorRequest.validateGetFatalErrorRequest at h
    split at h
    · rename_i hempty
      intro segment hsegment
      have := all_eq_true.1 hempty segment hsegment
      simp [isSpecific, of_decide_eq_true this]
    · split at h
      · rename_i hstar
        intro segment hsegment
        have := all_eq_true.1 hstar segment hsegment
        simp [isSpecific, of_decide_eq_true this]
      · cases h
  simp only [GetFatalErrorRequest.segments, forall_mem_cons] at hnone
  obtain ⟨h₁, h₂, h₃, h₄, -⟩ := hnone
  simp [World.Identifies, h₁, h₂, h₃, h₄]

theorem sendsOwn_error (e : Err) : SendsOwn (.error e) := nofun

/-- The request matches no key of a fatal error of another workflow than the given one. -/
def MatchesOnly (w : World) (ns : String) (req : GetFatalErrorRequest) (name : String) : Prop :=
  ∀ key (f : FatalError), w.value ⟨ns, .wfFatalError, key⟩ = some f →
    isBelow req.fatalErrorKeyPrefixBuilder key = true → f.workflowState.workflowName = name

theorem ends_fatalErrorsFor_none : Ends (env F) True (fun _ r => SendsOwn r) w
    (fatalErrorsFor ns req none).run :=
  ends_seq.2 (ends_panic.2 trivial)

theorem ends_fatalErrorsFor_some {name : String} (hlisted : w.Listed) :
    Ends (env F) X (fun _ r => SendsOwn r) w (fatalErrorsFor ns req (some name)).run ↔
      MatchesOnly w ns req name := by
  simp only [fatalErrorsFor, Act.deref_some, ends_seq, ends_liftM, ends_pure]
  rw [MatchesOnly, ← ends_getFatalErrors (F := F) (X := X) hlisted]
  simp [SendsOwn]

/-- **The fatal errors are guarded** if and only if the request matches no key of a fatal error of
another workflow than the one that it stands for, when the caller is authorized for that one. -/
theorem fatalErrorsGuarded_iff (F : Op → Prop) (a : Auth) (ns : String) (w : World)
    (req : GetFatalErrorRequest) (hlisted : w.Listed) : FatalErrorsGuarded F a ns w req ↔
      ∀ name, w.Identifies ns req name → a.grants name = true → MatchesOnly w ns req name := by
  have hsends : Ends (env F) True (fun _ r => SendsOwn r) w (apiGetFatalErrors a ns req).run ↔
      ∀ name, w.Identifies ns req name → a.grants name = true → MatchesOnly w ns req name := by
    rw [apiGetFatalErrors, ends_seq, ends_ofExcept]
    cases hvalid : req.validateGetFatalErrorRequest with
    | error err => simp [not_identifies_of_invalid hvalid, sendsOwn_error]
    | ok _ =>
      -- what follows the authorization takes no notice of the cache
      have hcached : ∀ c, (w.withCache c).Listed := fun c l hl => hlisted l hl
      refine ends_seq.trans ?_
      rw [ends_authorizeFatalErrors]
      · simp only [ends_fatalErrorsFor_none, ends_fatalErrorsFor_some hlisted, implies_true,
          true_and]
      · exact fun _ => sendsOwn_error
      · rintro c (_ | name)
        · simp only [ends_fatalErrorsFor_none]
        · simp only [ends_fatalErrorsFor_some hlisted, ends_fatalErrorsFor_some (hcached c),
            MatchesOnly, World.withCache_value]
  constructor
  · exact fun h => hsends.1 h.sends
  · exact fun h => ⟨fun c hrun e he hread => authorized_of_read hrun he hread, hsends.2 h⟩

/-! ### Workflow names without dots -/

/-- Every fatal error is stored under its own key, which is made of tokens. -/
def World.TokenKeys (w : World) (ns : String) : Prop :=
  ∀ key (f : FatalError), w.value ⟨ns, .wfFatalError, key⟩ = some f →
    key = fatalErrorKey f.workflowState ∧ f.workflowState.Tokens

/-- A request for a workflow by its name matches the errors of this workflow only. -/
theorem matchesOnly_of_name (hkeys : w.TokenKeys ns) (hreq : req.Tokens)
    (hname : isSpecific req.wfName = true) : MatchesOnly w ns req req.wfName := by
  intro key f hf hbelow
  obtain ⟨rfl, htokens⟩ := hkeys key f hf
  exact (((isBelow_fatalErrorKey hreq htokens).1 hbelow).1 hname).symm

/-! ### A failure in a called workflow -/

/-- A user who may see the workflow "orders" only. -/
def ordersOnly : Auth where
  authN := some "user"
  authZ := some fun _ workflowName => workflowName == "orders"

/-- A job of "payments", in an execution that was launched for "orders". -/
def paymentFailed : FatalError where
  workflowState :=
    { workflowName := "payments", workflowId := "payments-1", executionId := "execution",
      processInstanceId := "instance", elementId := "task" }

/-- The execution of "orders" in which "payments" has failed. -/
def calledWorld : World :=
  (({} : World).put ⟨"default", .wfExecution, "execution"⟩
      ({ executionId := "execution", workflowName := "orders" } : Execution)).put
    ⟨"default", .wfFatalError, fatalErrorKey paymentFailed.workflowState⟩ paymentFailed

theorem calledWorld_tokenKeys : calledWorld.TokenKeys "default" := by
  intro key f hf
  have hkey : key = fatalErrorKey paymentFailed.workflowState := by
    by_contra hne
    have hother : (⟨"default", .wfFatalError, key⟩ : Loc) ≠
        ⟨"default", .wfFatalError, fatalErrorKey paymentFailed.workflowState⟩ := by
      simpa using hne
    rw [calledWorld, put_value_of_ne _ _ hother,
      put_value_of_ne _ _ (by simp)] at hf
    cases hf
  subst hkey
  obtain rfl : paymentFailed = f := Option.mem_unique (put_value_self ..) hf
  exact ⟨rfl, by decide, by decide, by decide, by decide⟩

/-- Whoever asks for the errors of "orders" by name gets these only. -/
theorem orders_guarded :
    FatalErrorsGuarded noFault ordersOnly "default" calledWorld { wfName := "orders" } := by
  have hreq : ({ wfName := "orders" } : GetFatalErrorRequest).Tokens := by
    unfold GetFatalErrorRequest.Tokens
    decide
  refine (fatalErrorsGuarded_iff _ _ _ _ _ ((listed_empty.put _ _).put _ _)).2 ?_
  rintro name hidentifies -
  obtain rfl : "orders" = name := hidentifies
  exact matchesOnly_of_name calledWorld_tokenKeys hreq rfl

/-- **An error of another workflow is sent**: whoever asks for the errors of the execution is
authorized for "orders", and gets the error of "payments". -/
theorem payments_disclosed : ordersOnly.grants "payments" = false ∧
      ({ executionId := "execution" } : GetFatalErrorRequest).validateGetFatalErrorRequest =
        .ok () ∧
      ∃ w' stream, Exec (env noFault) calledWorld
          (apiGetFatalErrors ordersOnly "default" { executionId := "execution" }).run w'
            (.ok ("orders", stream)) ∧
        ∃ f ∈ stream.sent, f.workflowState.workflowName = "payments" := by
  obtain ⟨w', r, hexec, htest⟩ := exists_exec_of_reaches noFault calledWorld
    (apiGetFatalErrors ordersOnly "default" { executionId := "execution" }).run
    (List.replicate 6 .ok)
    (fun _ r => match r with
      | .ok (name, stream) => name == "orders" &&
          stream.sent.any fun f => f.workflowState.workflowName == "payments"
      | .error _ => false) (by decide +kernel)
  refine ⟨rfl, rfl, ?_⟩
  cases r with
  | error e => cases htest
  | ok answer =>
    obtain ⟨name, stream⟩ := answer
    obtain ⟨rfl, hsent⟩ : name = "orders" ∧
        ∃ f ∈ stream.sent, f.workflowState.workflowName = "payments" := by simpa using htest
    exact ⟨w', stream, hexec, hsent⟩

end SharWorkflow
