import SharWorkflow.Nats.Conduct

/-!
# The scope of a handler

Much of what can be said about a handler depends only on which calls it makes at all, whatever the
answers are: it stays in its namespace, it does not touch the executions and process instances, it
does not signal a fatal error. A `Scope` is such a set of calls.

* `Scope.covers`: the calls in the scope.
* `Local S x`: every call of `x`, a function or the handler of a message, is in the scope, and its
  errors carry a workflow state only if the scope allows it. The rules are those of
  `Nats/Keeps.lean`, so the proof that a function is local is written like the function.
* `Scope.run_covered`, `Scope.run_kept`: in every interleaving, the calls of a thread that keeps to
  a scope are in the scope; if all threads keep to one scope, what they store and may not delete
  stays.
-/

namespace SharWorkflow

open Concurrent Discipline World

/-! ### Errors without a state -/

/-- The error is no fatal error that carries the state of a workflow. -/
def Err.Stateless (e : Err) : Prop := ∀ state, e.as Err.fatalState? ≠ some (some state)

namespace Err

@[simp]
theorem stateless_wrap (text : String) (e : Err) : (wrap text e).Stateless ↔ e.Stateless := by
  simp [Stateless]

@[simp]
theorem stateless_sentinel (s : Sentinel) : (sentinel s).Stateless := by
  simp [Stateless, as, fatalState?]

@[simp]
theorem stateless_nats (text : String) : (nats text).Stateless := by
  simp [Stateless, as, fatalState?]

@[simp]
theorem stateless_text (s : String) : (Err.text s).Stateless := by
  simp [Stateless, as, fatalState?]

@[simp]
theorem stateless_workflowFatal_none (e : Err) : (workflowFatal e none).Stateless := by
  simp [Stateless, as, fatalState?]

/-- The errors of the calls: one of NATS, or a sentinel. -/
def External (e : Err) : Prop := (∃ text, e = nats text) ∨ ∃ s, e = sentinel s

theorem External.stateless {e : Err} (h : e.External) : e.Stateless := by
  rcases h with ⟨text, rfl⟩ | ⟨s, rfl⟩
  · exact stateless_nats text
  · exact stateless_sentinel s

end Err

/-! ### Scopes -/

/-- The bucket holds executions or process instances. -/
def Bucket.HoldsInstances : Bucket → Prop
  | wfExecution => True
  | wfProcessInstance => True
  | _ => False

/-- The subjects that a scope may exclude: a fatal error, the end of an execution, and the end of a
called process. -/
def Subject.isSpecial : Subject → Bool
  | systemProcessFatalError | executionComplete | jobLaunchComplete => true
  | _ => false

/-- What a handler may do: which executions and process instances it may write and delete, and on
which of the special subjects it may publish. Anything else is allowed in its namespace. The handler
may take it that nothing is stored at a `vacant` location. -/
structure Scope where
  ns : String
  writes : Loc → Prop
  deletes : Loc → Prop
  publishes : Subject → Prop
  vacant : Loc → Prop

/-- The message is not about any process instance. -/
def Msg.NamesNoInstance (m : Msg) : Prop :=
  ∀ state, m.payload = .state state → state.processInstanceId = ""

namespace Scope

/-- The location may be written. -/
def mayWrite (S : Scope) (l : Loc) : Prop := l.ns = S.ns ∧ (l.bucket.HoldsInstances → S.writes l)

/-- The message may be published. The order to abort an execution never names a process instance. -/
structure MayPublish (S : Scope) (m : Msg) : Prop where
  ns : m.ns = S.ns
  special : m.subject.isSpecial = true → S.publishes m.subject
  abort : m.subject = .executionAbort → m.NamesNoInstance

/-- The calls in the scope. -/
def covers (S : Scope) : Op → Prop
  | .kvsFor ns => ns = S.ns
  | .get l => l.ns = S.ns
  | .put l _ => S.mayWrite l
  | .create l _ => S.mayWrite l
  | .update l _ _ => S.mayWrite l
  | .delete l => l.ns = S.ns ∧ (l.bucket.HoldsInstances → S.deletes l)
  | .publish m => S.MayPublish m
  | .searchKeys ns _ _ => ns = S.ns
  | .keys ns _ => ns = S.ns
  | _ => True

/-- What the handler may take for granted: an id is not empty, and a vacant location is. -/
def knows (S : Scope) : (o : Op) → Ans o → Prop
  | .get l, r => S.vacant l → ∀ entry, r ≠ .ok entry
  | .newId, r => r ≠ ""
  | _, _ => True

/-- The answers of NATS: an error is one of its own. -/
def answers (S : Scope) (o : Op) (r : Ans o) : Prop :=
  (∀ e, o.error? r = some e → e.External) ∧ S.knows o r

/-- The discipline of the scope. -/
def discipline (S : Scope) : Discipline Op Ans Unit :=
  ⟨fun _ o => S.covers o, fun _ o r _ => S.answers o r⟩

/-- The program keeps to the scope, and its results meet `Q`. -/
abbrev Within {α : Type} (S : Scope) (Q : α → Prop) (p : P α) : Prop := S.discipline.Ensures Q p

end Scope

/-- How programs fail: a function with an error, and a handler with an error and whether its message
is acknowledged. -/
class HasErr (ε : Type) where
  err : ε → Err

instance : HasErr Err := ⟨id⟩

instance : HasErr (Bool × Err) := ⟨Prod.snd⟩

variable {α β ε : Type} [HasErr ε] {S : Scope}

/-- The error is one that the scope allows: it carries a state only if fatal errors may be
published. -/
def Scope.Fine (S : Scope) (e : ε) : Prop :=
  S.publishes .systemProcessFatalError ∨ (HasErr.err e).Stateless

/-- The result of a computation is one that the scope allows. -/
abbrev Scope.Allows (S : Scope) (r : Except ε α) : Prop := Meets (fun _ => True) S.Fine r

open Scope Yields

/-- The program keeps to the scope, and so do its errors. -/
abbrev Local (S : Scope) (x : ExceptT ε P α) : Prop := Yields S.discipline (fun _ => True) x S.Fine

theorem Scope.Fine.wrap {e : Err} (h : S.Fine e) (text : String) : S.Fine (Err.wrap text e) :=
  h.imp_right (Err.stateless_wrap text e).2

theorem Scope.fine_sentinel (s : Sentinel) : S.Fine (Err.sentinel s) :=
  .inr (Err.stateless_sentinel s)

theorem Scope.fine_text (s : String) : S.Fine (Err.text s) := .inr (Err.stateless_text s)

theorem Scope.fine_workflowFatal_none {e : Err} : S.Fine (Err.workflowFatal e none) :=
  .inr (Err.stateless_workflowFatal_none _)

instance : PassesOn S.discipline (S.Fine : Err → Prop) where
  answer hr he := .inr (hr.1 _ he).stateless
  wrap text _ he := he.wrap text
  sentinel := fine_sentinel
  text := fine_text
  fatal _ := fine_workflowFatal_none

/-! ### Rules -/

theorem local_pure {a : α} : Local S (pure a : ExceptT ε P α) := yields_pure trivial

variable {x : Act α} {k : α → Act β}

theorem local_ofExcept {r : Except Err α} (h : S.Allows r) : Local S (Act.ofExcept r) :=
  ensures_ret h

theorem local_when {c : Prop} [Decidable c] {x : Act Unit} (hx : c → Local S x) :
    Local S (Act.when c x) :=
  Yields.when hx fun _ => trivial

theorem local_optional {absent : List Sentinel} (hx : Local S x) :
    Local S (Act.optional absent x) :=
  Yields.any (Yields.optional hx)

theorem local_deref (x : Option α) : Local S (Act.deref x) := (yields_deref trivial x).any

/-- What is found where a pointer leads. -/
theorem Local.deref_bind {x : Option α} (h : ∀ a, x = some a → Local S (k a)) :
    Local S (Act.deref x >>= k) :=
  (yields_deref trivial x).seq h

/-- The program ends in a fatal error, if in any. -/
theorem local_fatal {g : Err → Err} (hx : Local S x) :
    Local S (Act.mapError (fun e => .workflowFatal (g e) none) x) :=
  mapError hx fun _ _ => fine_workflowFatal_none

variable {l : Loc} {msg : l.Val} {updateFn : l.Val → Except Err l.Val}

theorem local_updateObj (h : S.mayWrite l) (hfn : ∀ v, S.Allows (updateFn v)) :
    Local S (updateObj l msg updateFn) :=
  yields_updateObj h.1 (fun _ _ _ _ _ => h) (.inl h) fun v _ => (hfn v).error

/-! ### Handlers -/

variable {ack : Bool}

theorem local_acking (hx : Local S x) : Local S (Act.acking ack x) :=
  endingIn hx fun _ he => he

theorem Local.acking_bind {k : α → Handler β} (hx : Local S x) (hk : ∀ a, Local S (k a)) :
    Local S (Act.acking ack x >>= k) :=
  andThen (local_acking hx) hk

/-- The error of a program is looked at by a handler. -/
theorem Local.acking_attempt_bind {k : Except Err α → Handler β} (hx : Local S x)
    (hok : ∀ a, Local S (k (.ok a))) (herror : ∀ e, S.Fine e → Local S (k (.error e))) :
    Local S (Act.acking ack (Act.attempt x) >>= k) := by
  refine seq (endingIn (attempt hx) fun _ he => he) fun r hr => ?_
  cases r with
  | ok a => exact hok a
  | error e => exact herror e hr

/-- What a handler finds where a pointer leads. -/
theorem Local.acking_deref_bind {x : Option α} {k : α → Handler β}
    (h : ∀ a, x = some a → Local S (k a)) : Local S (Act.acking ack (Act.deref x) >>= k) :=
  seq (endingIn (E := S.Fine) (yields_deref trivial x) fun _ he => he) h

/-! ### Interleavings -/

variable {F : Op → Prop} {o : Op} {s s' : World} {r : Ans o}

/-- An error that a call is answered with is one of NATS, or a sentinel. -/
theorem World.external_of_env {e : Err} (h : env F o s r s') (he : o.error? r = some e) :
    e.External := by
  cases o with
  | kvsFor ns | searchKeys ns b pre | ensureBucket name =>
    rcases h with ⟨-, rfl | ⟨-, text, rfl⟩⟩ <;> cases he
    exact .inl ⟨text, rfl⟩
  | get l =>
    rcases h with ⟨-, ⟨-, rfl⟩ | ⟨v, isNil, -, -, rfl⟩ | ⟨-, text, rfl⟩⟩ <;> cases he
    · exact .inr ⟨_, rfl⟩
    · exact .inl ⟨text, rfl⟩
  | put l v | delete l | publish m | createConsumer durable filter | ackEntry durable =>
    rcases h with ⟨rfl, -⟩ | ⟨-, -, text, rfl⟩ <;> cases he
    exact .inl ⟨text, rfl⟩
  | create l v | update l v rev =>
    rcases h with ⟨-, rfl, -⟩ | ⟨-, -, rfl⟩ | ⟨-, -, text, rfl⟩ <;> cases he
    · exact .inr ⟨_, rfl⟩
    · exact .inl ⟨text, rfl⟩
  | keys ns b =>
    rcases h with ⟨-, ⟨-, rfl⟩ | ⟨keys, -, -, rfl⟩ | ⟨-, text, rfl⟩⟩ <;> cases he
    · exact .inr ⟨_, rfl⟩
    · exact .inl ⟨text, rfl⟩
  | fetch durable filter =>
    rcases h with ⟨-, rfl | ⟨-, text, rfl⟩⟩
    · unfold World.nextEntry at he
      split at he <;> cases he
      exact .inl ⟨_, rfl⟩
    · cases he
      exact .inl ⟨text, rfl⟩
  | _ => cases he

/-- What a scope takes for granted about the answers, when the vacant locations are. -/
theorem Scope.answers_of_env (hvacant : ∀ l, S.vacant l → s.value l = none) (h : env F o s r s') :
    S.answers o r := by
  refine ⟨fun _ => external_of_env h, ?_⟩
  cases o with
  | get l =>
    rcases h with ⟨-, ⟨-, rfl⟩ | ⟨v, isNil, hv, -, rfl⟩ | ⟨-, text, rfl⟩⟩
    · nofun
    · intro hl
      rw [hvacant l hl] at hv
      cases hv
    · nofun
  | newId => exact h.1.2.1
  | _ => trivial

/-- **In every run** the calls of a thread that keeps to a scope are in the scope. -/
theorem Scope.run_covered {ι : Type} [DecidableEq ι] {Q : α → Prop} {s : World} {threads : ι → P α}
    {c : Config ι Op Ans World α} {i : ι} (hvacant : ∀ l, ¬ S.vacant l) (h : S.Within Q (threads i))
    (hrun : Run (env F) (Config.start s threads) c) :
    ∀ e ∈ c.trace, e.thread = i → S.covers e.op := by
  have hadmits : S.discipline.Admits (env F) := fun _ h =>
    ⟨(), answers_of_env (fun l hl => absurd hl (hvacant l)) h⟩
  intro e he hi
  obtain ⟨_, hcovers⟩ := Keeps.run hadmits h hrun e he hi
  exact hcovers

/-! ### What stays in the store -/

section Kept

variable {ι : Type}

/-- The calls so far are in the scope, and what they have stored for good is there. -/
structure Scope.Kept (S : Scope) (s : World) (t : List (WEvent ι)) : Prop where
  vacant : ∀ l, S.vacant l → s.value l = none
  covered : ∀ e ∈ t, S.covers e.op
  stored : ∀ l, l.bucket.HoldsInstances → ¬ S.deletes l →
    (∃ e ∈ t, isStoreAt l e.op e.answer = true) → s.value l ≠ none

theorem Scope.covers.mayWrite {l : Loc} (h : S.covers o) (hstore : isStoreAt l o r = true) :
    S.mayWrite l := by
  cases o with
  | put l' v | create l' v | update l' v rev =>
    cases r with
    | error e => cases hstore
    | ok _ => exact of_decide_eq_true hstore ▸ h
  | _ => cases hstore

theorem Scope.covers.deletes {l : Loc} (h : S.covers o) (hdelete : isDeleteAt l o r = true) :
    l.bucket.HoldsInstances → S.deletes l := by
  cases o with
  | delete l' =>
    cases r with
    | error e => cases hdelete
    | ok _ => exact of_decide_eq_true hdelete ▸ h.2
  | _ => cases hdelete

/-- The vacant locations stay vacant. -/
def Scope.KeepsVacant (S : Scope) : Prop := ∀ l, S.vacant l → l.bucket.HoldsInstances ∧ ¬ S.writes l

theorem Scope.Kept.call {t : List (WEvent ι)} {i : ι} (hvacant : S.KeepsVacant) (h : S.Kept s t)
    (hcovers : S.covers o) (henv : env F o s r s') : S.Kept s' (⟨i, s, o, r⟩ :: t) where
  vacant l hl := by
    obtain ⟨hholds, hwrites⟩ := hvacant l hl
    by_cases hstore : isStoreAt l o r = true
    · exact absurd ((hcovers.mayWrite hstore).2 hholds) hwrites
    by_cases hdelete : isDeleteAt l o r = true
    · exact value_of_delete henv hdelete
    · rw [value_of_other henv (Bool.eq_false_of_not_eq_true hstore)
        (Bool.eq_false_of_not_eq_true hdelete)]
      exact h.vacant l hl
  covered e he := by
    rcases List.mem_cons.1 he with rfl | he
    · exact hcovers
    · exact h.covered e he
  stored l hholds hkeep := by
    rintro ⟨e, he, hstored⟩
    rcases List.mem_cons.1 he with rfl | he
    · exact value_of_store henv hstored
    · refine value_ne_none_of_env henv ?_ (h.stored l hholds hkeep ⟨e, he, hstored⟩)
      exact Bool.eq_false_of_not_eq_true fun hdelete => hkeep (hcovers.deletes hdelete hholds)

/-- **In every run** of threads that keep to one scope, the calls are in the scope, and what they
have stored for good is there. -/
theorem Scope.run_kept [DecidableEq ι] {F : Op → Prop} {Q : ι → α → Prop} {s : World}
    {threads : ι → P α} {c : Config ι Op Ans World α} (hvacant : S.KeepsVacant)
    (hempty : ∀ l, S.vacant l → s.value l = none) (h : ∀ i, S.Within (Q i) (threads i))
    (hrun : Run (env F) (Config.start s threads) c) : S.Kept c.state c.trace := by
  refine Keeps.invariant h hrun ⟨hempty, by simp, by simp⟩ fun e _ t s' hmay hkept henv => ?_
  exact ⟨answers_of_env hkept.vacant henv, Kept.call hvacant hkept hmay henv⟩

end Kept

end SharWorkflow
