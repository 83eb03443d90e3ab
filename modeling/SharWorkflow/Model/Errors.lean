import SharWorkflow.Model.Data

/-!
# Errors

Go errors as values: sentinel errors, errors that wrap another one (`fmt.Errorf` with `%w`) or
several, `ErrWorkflowFatal`, which marks a workflow that must terminate, and the errors of a client:
`workflow.Error`, by which a service task raises an error of the workflow, and `api.Error`, the
answer of a call that failed.

`ErrWorkflowFatal` has no `Unwrap` method, so `errors.Is` does not look inside it (`Err.is`), while
`errors.As` finds it at any depth of wrapping (`Err.isWorkflowFatal`); and the same goes for
`workflow.Error`. A value and a pointer are different types to `errors.As` (`Err.as`), and the
methods of both errors have a value receiver, so that both forms are errors.
-/

namespace SharWorkflow

/-- Errors that are compared by identity. The first three come from the NATS client; a failed
compare-and-set is the API error with code 10071. -/
inductive Sentinel
  | keyNotFound
  | keyExists
  | wrongLastSequence
  | noKeysFound
  | executionNotFound
  | processInstanceNotFound
  | workflowNotFound
  | workflowVersionNotFound
  | elementNotFound
  | stateNotFound
  | jobNotFound
  | workflowErrorNotFound
  | gatewayInstanceNotFound
  | processNotFound
  | unhandledWorkflowError
  | expectedVar
  | invalidState
  | cancelFailed
  | streamCancel
  deriving DecidableEq, Repr

/-- The texts of the sentinels. -/
def Sentinel.text : Sentinel → String
  | keyNotFound => "nats: key not found"
  | keyExists => "nats: key exists"
  | wrongLastSequence => "nats: API error: code=400 err_code=10071 description=wrong last sequence"
  | noKeysFound => "nats: no keys found"
  | executionNotFound => "execution not found"
  | processInstanceNotFound => "process instance not found"
  | workflowNotFound => "workflow not found"
  | workflowVersionNotFound => "workflow version not found"
  | elementNotFound => "element not found"
  | stateNotFound => "state not found"
  | jobNotFound => "job not found"
  | workflowErrorNotFound => "workflow error number not found"
  | gatewayInstanceNotFound => "find gateway instance"
  | processNotFound => "process not found"
  | unhandledWorkflowError => "unhandled workflow error"
  | expectedVar => "workflow expects variable"
  | invalidState => "invalid cancellation state"
  | cancelFailed => "cancel workflow instance"
  | streamCancel => "stream cancelled"

/-- An error value. `nats` is any other failure of a call to NATS. `workflowFatal` is a pointer to
an `ErrWorkflowFatal` and `workflowFatalValue` the bare value; `workflowError` is a
`workflow.Error`, of which only the code is looked at; `join` wraps two errors. -/
inductive Err
  | sentinel (s : Sentinel)
  | nats (text : String)
  | text (text : String)
  | wrap (text : String) (e : Err)
  | workflowFatal (e : Err) (state : Option WorkflowState)
  | workflowFatalValue (e : Err)
  | workflowError (pointer : Bool) (code : String)
  | api (code : Nat) (message : String)
  | join (e e' : Err)

namespace Err

/-- `errors.Is` against a sentinel. -/
def is : Err → Sentinel → Bool
  | sentinel s, t => s == t
  | wrap _ e, t => e.is t
  | nats _, _ => false
  | text _, _ => false
  | workflowFatal _ _, _ => false
  | workflowFatalValue _, _ => false
  | workflowError _ _, _ => false
  | api _ _, _ => false
  | join e e', t => e.is t || e'.is t

/-- `IsWorkflowFatal`. -/
def isWorkflowFatal : Err → Bool
  | workflowFatal _ _ => true
  | wrap _ e => e.isWorkflowFatal
  | sentinel _ => false
  | nats _ => false
  | text _ => false
  | workflowFatalValue _ => false
  | workflowError _ _ => false
  | api _ _ => false
  | join e e' => e.isWorkflowFatal || e'.isWorkflowFatal

/-- `errors.As`: the first error that the target accepts, from the outside in. -/
def as {β : Type} (target : Err → Option β) : Err → Option β
  | wrap s e => (target (wrap s e)).or (e.as target)
  | join e e' => (target (join e e')).or ((e.as target).or (e'.as target))
  | e => target e

/-- The target `*ErrWorkflowFatal`, and the state it carries. -/
def fatalState? : Err → Option (Option WorkflowState)
  | workflowFatal _ state => some state
  | _ => none

/-- The target `workflow.Error`, as a pointer or as a value, and its code. -/
def codeOf? (pointer : Bool) : Err → Option String
  | workflowError p code => if p = pointer then some code else none
  | _ => none

/-- A workflow error in any form. -/
def code? : Err → Option String
  | workflowError _ code => some code
  | _ => none

/-- The target `*api.Error`, with its code and its message. -/
def api? : Err → Option (Nat × String)
  | api code message => some (code, message)
  | _ => none

/-- The sentinels of the list `integrityErrors`. -/
def integrityErrors : List Sentinel :=
  [.keyNotFound, .elementNotFound, .jobNotFound, .executionNotFound, .processNotFound,
    .processInstanceNotFound, .stateNotFound, .workflowNotFound, .gatewayInstanceNotFound,
    .workflowVersionNotFound, .workflowErrorNotFound]

/-- The text of an error contains the given words. -/
def mentions (words : String) : Err → Bool
  | sentinel s => s.text.contains words
  | nats message => message.contains words
  | text message => message.contains words
  | wrap message e => message.contains words || e.mentions words
  | workflowFatal e _ => e.mentions words
  | workflowFatalValue e => e.mentions words
  | workflowError _ code => code.contains words
  | api _ message => message.contains words
  | join e e' => e.mentions words || e'.mentions words

@[simp]
theorem is_sentinel (s t : Sentinel) : (sentinel s).is t = (s == t) := rfl

@[simp]
theorem is_wrap (text : String) (e : Err) (t : Sentinel) : (wrap text e).is t = e.is t := rfl

@[simp]
theorem is_nats (text : String) (t : Sentinel) : (nats text).is t = false := rfl

/-- `errors.As` looks through a wrapper, unless the target accepts it. -/
theorem as_wrap {β : Type} {target : Err → Option β} (text : String) (e : Err)
    (h : target (wrap text e) = none) : (wrap text e).as target = e.as target := by
  rw [as, h, Option.none_or]

@[simp]
theorem as_fatalState?_wrap (text : String) (e : Err) :
    (wrap text e).as fatalState? = e.as fatalState? := as_wrap text e rfl

@[simp]
theorem as_codeOf?_wrap (text : String) (pointer : Bool) (e : Err) :
    (wrap text e).as (codeOf? pointer) = e.as (codeOf? pointer) := as_wrap text e rfl

/-- An error that is none of the sentinels and not fatal: what a failed call leads to. -/
def Plain (e : Err) : Prop := (∀ s, e.is s = false) ∧ e.isWorkflowFatal = false

theorem plain_nats (text : String) : (nats text).Plain := ⟨fun _ => rfl, rfl⟩

theorem Plain.wrap {e : Err} (h : e.Plain) (text : String) : (Err.wrap text e).Plain := h

end Err

end SharWorkflow
