import SharWorkflow.Concurrent.Channels
import SharWorkflow.Concurrent.Discipline
import SharWorkflow.Model.Errors

/-!
# Streamed replies

A request whose answer is a stream is served by three goroutines. The **server** subscribes to the
inbox on which the client may cancel, starts the worker, and publishes what it receives from the
worker until there is an error, or the end of the stream, or a cancellation. The **worker** runs the
function that computes the answer, and closes the channel of errors when the function has returned.
The **callback** of the subscription sends `ErrStreamCancel` on the channel of errors.

Nobody tells the callback that the channel is closed. It panics if the client cancels between the
return of the function and the end of the subscription, and also if it was still waiting to send
when the function returned.

* `streamingReplyServer`, `streamWorker`, `cancelCallback`: the three goroutines. The function is
  any function: what it does next is up to the environment, as is the arrival of cancellations.
* `silent_of_run`: once a cancellation is received, nothing more is published, in any run.
* `streamedReplies_sound`: **nobody panics** in a run in which no cancellation arrives after the
  function has returned, and the function does not return while a cancellation is being sent.
-/

namespace SharWorkflow

open Concurrent Discipline

variable {M : Type}

/-! ### The goroutines -/

/-- What is published to the inbox of the client. -/
inductive Reply (M : Type)
  | message (m : M)
  | failure (e : Err)
  | eof

/-- The calls of the goroutines, apart from those on the channels. -/
inductive ReplyOp (M : Type)
  | subscribe
  | go
  | started
  | compute
  | cancelled
  | publish (r : Reply M)
  | unsubscribe

/-- The answers. A call to NATS answers whether it has succeeded. The function answers a message, an
error, or that it returns. -/
def ReplyOp.Ans : ReplyOp M → Type
  | .subscribe => Bool
  | .go => Unit
  | .started => Unit
  | .compute => Option (M ⊕ Err)
  | .cancelled => Unit
  | .publish _ => Bool
  | .unsubscribe => Bool

/-- Whether the client can cancel, and whether the worker runs. -/
structure ReplyState where
  subscribed : Bool := false
  running : Bool := false

/-- What the environment has to choose. -/
inductive ReplyChoice (M : Type)
  | ok
  | failed
  | errors
  | sends (m : M)
  | fails (e : Err)

/-- What the calls do. Cancellations arrive as long as there is a subscription. -/
def ReplyState.pick (x : ReplyChoice M) : (o : ReplyOp M) → ReplyState → Option (o.Ans × ReplyState)
  | .subscribe, s => match x with
    | .failed => some (false, s)
    | _ => some (true, { s with subscribed := true })
  | .go, s => some ((), { s with running := true })
  | .started, s => if s.running then some ((), s) else none
  | .compute, s => match x with
    | .sends m => some (some (.inl m), s)
    | .fails e => some (some (.inr e), s)
    | _ => some (none, s)
  | .cancelled, s => if s.subscribed then some ((), s) else none
  | .publish _, s => match x with
    | .failed => some (false, s)
    | _ => some (true, s)
  | .unsubscribe, s => match x with
    | .failed => some (false, s)
    | _ => some (true, { s with subscribed := false })

abbrev StreamedOp (M : Type) : Type := ReplyOp M ⊕ StreamOp M Err

abbrev StreamedAns : StreamedOp M → Type := SumAns ReplyOp.Ans StreamOp.Ans

abbrev StreamedState (M : Type) : Type := ReplyState × Streams M Err

/-- The environment of a request. -/
def streamedEnv : Environment (StreamedOp M) StreamedAns (StreamedState M) :=
  .sum (fun o s r s' => ∃ x, ReplyState.pick x o s = some (r, s')) Streams.env

/-- The programs of the goroutines. The result is `false` if the goroutine panics. -/
abbrev StreamedProg (M : Type) (α : Type) : Type 1 := Prog (StreamedOp M) StreamedAns α

/-- The handler of `StreamingReplyServer`. -/
def streamingReplyServer : StreamedProg M Bool :=
  .call (.inl .subscribe) fun
    | false => .ret true
    | true => .call (.inl .go) fun _ =>
      .loop () (fun _ => .call (.inr .select) fun
        | .value m => .call (.inl (.publish (.message m))) fun _ => .ret (.inl ())
        | .finished => .call (.inl (.publish .eof)) fun _ => .ret (.inr ())
        | .error e =>
          if e.is .streamCancel then .ret (.inr ())
          else .call (.inl (.publish (.failure e))) fun _ => .ret (.inr ()))
      fun (_ : Unit) => .call (.inl .unsubscribe) fun _ => .ret true

/-- The goroutine that runs the function. -/
def streamWorker : StreamedProg M Bool :=
  .call (.inl .started) fun _ =>
    .loop () (fun _ => .call (.inl .compute) fun
      | none => .ret (.inr true)
      | some x => (send x).right.bind fun ok => .ret (if ok then .inl () else .inr false))
    fun ok => if ok then .call (.inr .finish) .ret else .ret false

/-- The callback of the subscription to the cancel inbox, which is called for one message after the
other. -/
def cancelCallback : StreamedProg M Bool :=
  .loop () (fun _ => .call (.inl .cancelled) fun _ =>
    (send (.inr (.sentinel .streamCancel))).right.bind fun ok =>
      .ret (if ok then .inl () else .inr false))
  .ret

inductive Goroutine
  | server
  | worker
  | callback
  deriving DecidableEq

/-- The three goroutines of a request. -/
def goroutines : Goroutine → StreamedProg M Bool
  | .server => streamingReplyServer
  | .worker => streamWorker
  | .callback => cancelCallback

abbrev StreamedEvent (M : Type) : Type :=
  Event Goroutine (StreamedOp M) StreamedAns (StreamedState M)

/-- A request is about to be served. -/
def Request (M : Type) : Config Goroutine (StreamedOp M) StreamedAns (StreamedState M) Bool :=
  .start ({}, {}) goroutines

/-! ### The conduct of the goroutines -/

/-- How far a goroutine has come: the callback is sending a cancellation, the function of the worker
has returned, the goroutine is through with its part, or it has panicked. -/
inductive ReplyStage
  | ready
  | sending
  | returned
  | over
  | panicked
  deriving DecidableEq

/-- The call has panicked. -/
def StreamedOp.panics : (o : StreamedOp M) → StreamedAns o → Bool
  | .inl _, _ => false
  | .inr o, r => o.panics r

/-- How a call moves a goroutine on. -/
def Goroutine.advance (p : Goroutine) (l : ReplyStage) :
    (o : StreamedOp M) → StreamedAns o → ReplyStage
  | .inl .compute, none => if p = .worker then .returned else l
  | .inl .cancelled, _ => if p = .callback then .sending else l
  | .inr .finish, true => if p = .worker then .over else l
  | .inr (.await _ _), true => if p = .callback then .ready else l
  | .inr .select, .error e => if e.is .streamCancel then .over else l
  | o, r => if StreamedOp.panics o r then .panicked else l

/-- The calls that a goroutine makes. -/
def Goroutine.may (l : ReplyStage) : Goroutine → StreamedOp M → Bool
  | .server, .inl .subscribe | .server, .inl .go | .server, .inl .unsubscribe
  | .server, .inr .select => true
  | .server, .inl (.publish _) => l = .ready
  | .worker, .inl .started | .worker, .inl .compute | .worker, .inr (.offer _)
  | .worker, .inr (.await _ _) => l = .ready
  | .worker, .inr .finish => l = .returned
  | .callback, .inl .cancelled => l = .ready
  | .callback, .inr (.offer _) | .callback, .inr (.await _ _) => l = .sending
  | _, _ => false

/-- The stage of a goroutine, read off the trace. -/
def Goroutine.stage (p : Goroutine) : List (StreamedEvent M) → ReplyStage
  | [] => .ready
  | e :: t => if e.thread = p then p.advance (p.stage t) e.op e.answer else p.stage t

def Goroutine.discipline (p : Goroutine) : Discipline (StreamedOp M) StreamedAns ReplyStage where
  may l o := p.may l o = true
  step l o r l' := l' = p.advance l o r

/-- A goroutine that stops with `false` has panicked. -/
def StopsBy (l : ReplyStage) (ok : Bool) : Prop := ok = false → l = .panicked

theorem keeps_streamingReplyServer :
    Goroutine.server.discipline.Keeps StopsBy .ready (streamingReplyServer (M := M)) := by
  refine keeps_call.2 ⟨rfl, fun subscribed l hl => ?_⟩
  cases subscribed with
  | false => exact keeps_ret.2 nofun
  | true =>
    refine keeps_call.2 ⟨rfl, fun _ l hl' => ?_⟩
    subst hl hl'
    refine Keeps.loop (P := fun l _ => l = .ready) (M := fun _ _ => True) rfl ?_ ?_
    · rintro l - rfl
      refine keeps_call.2 ⟨rfl, fun received l hl => ?_⟩
      cases received with
      | value m =>
        subst hl
        exact keeps_call.2 ⟨rfl, fun _ l' hl' => keeps_ret.2 hl'⟩
      | finished =>
        subst hl
        exact keeps_call.2 ⟨rfl, fun _ _ _ => keeps_ret.2 trivial⟩
      | error e =>
        refine keeps_ite.2 ⟨fun _ => keeps_ret.2 trivial, fun hcancel => ?_⟩
        have hready : l = .ready := hl.trans (if_neg hcancel)
        subst hready
        exact keeps_call.2 ⟨rfl, fun _ _ _ => keeps_ret.2 trivial⟩
    · exact fun l _ _ => keeps_call.2 ⟨rfl, fun _ _ _ => keeps_ret.2 nofun⟩

/-- What a send leads to. -/
def Sent (l : ReplyStage) (ok : Bool) : Prop := l = if ok then .ready else .panicked

variable {p : Goroutine} {l : ReplyStage}

/-- A loop goes on after a send, unless the send has panicked. -/
theorem keeps_sent {Q : ReplyStage → Unit ⊕ Bool → Prop}
    {send : StreamedProg M Bool} (h : p.discipline.Keeps Sent l send)
    (hgo : Q .ready (.inl ())) (hstop : Q .panicked (.inr false)) :
    p.discipline.Keeps Q l (send.bind fun ok => .ret (if ok then .inl () else .inr false)) := by
  refine h.bind fun l ok hl => keeps_ret.2 ?_
  subst hl
  cases ok with
  | true => exact hgo
  | false => exact hstop

theorem keeps_worker_send (x : M ⊕ Err) :
    Goroutine.worker.discipline.Keeps Sent .ready (send x).right := by
  refine keeps_send (· = .ready) rfl (fun _ h => h) (fun _ _ h => h) ?_ ?_
  · rintro n - rfl
    rfl
  · rintro n ok - l' rfl rfl
    cases ok <;> rfl

theorem keeps_callback_send (x : M ⊕ Err) :
    Goroutine.callback.discipline.Keeps Sent .sending (send x).right := by
  refine keeps_send (· = .sending) rfl (fun _ h => h) (fun _ _ h => h) ?_ ?_
  · rintro n - rfl
    rfl
  · rintro n ok - l' rfl rfl
    cases ok <;> rfl

theorem keeps_streamWorker :
    Goroutine.worker.discipline.Keeps StopsBy .ready (streamWorker (M := M)) := by
  refine keeps_call.2 ⟨rfl, fun _ l hl => ?_⟩
  obtain rfl : l = .ready := hl
  refine Keeps.loop (P := fun l (_ : Unit) => l = .ready)
    (M := fun l (ok : Bool) => l = if ok then .returned else .panicked) rfl ?_ ?_
  · rintro l - rfl
    refine keeps_call.2 ⟨rfl, fun next l hl => ?_⟩
    cases next with
    | none => exact keeps_ret.2 hl
    | some x =>
      obtain rfl : l = .ready := hl
      exact keeps_sent (keeps_worker_send x) rfl rfl
  · intro l ok hl
    cases ok with
    | false => exact keeps_ret.2 fun _ => hl
    | true =>
      subst hl
      refine keeps_call.2 ⟨rfl, fun closed l hl => keeps_ret.2 ?_⟩
      rintro rfl
      exact hl

theorem keeps_cancelCallback :
    Goroutine.callback.discipline.Keeps StopsBy .ready (cancelCallback (M := M)) := by
  refine Keeps.loop (P := fun l _ => l = .ready) (M := StopsBy) rfl ?_
    fun l ok hl => keeps_ret.2 hl
  rintro l - rfl
  refine keeps_call.2 ⟨rfl, fun _ l hl => ?_⟩
  obtain rfl : l = .sending := hl
  exact keeps_sent (keeps_callback_send _) rfl fun _ => rfl

theorem keeps_goroutines (p : Goroutine) :
    p.discipline.Keeps StopsBy .ready (goroutines (M := M) p) :=
  match p with
  | .server => keeps_streamingReplyServer
  | .worker => keeps_streamWorker
  | .callback => keeps_cancelCallback

section Runs

variable {c c' : Config Goroutine (StreamedOp M) StreamedAns (StreamedState M) Bool}

variable {o : StreamedOp M} {r : StreamedAns o} {t : List (StreamedEvent M)}

theorem stage_of_ne {e : StreamedEvent M} (h : e.thread ≠ p) :
    p.stage (e :: t) = p.stage t := if_neg h

theorem stage_self (e : StreamedEvent M) (t : List (StreamedEvent M)) :
    e.thread.stage (e :: t) = e.thread.advance (e.thread.stage t) e.op e.answer := if_pos rfl

/-- The stages that are read off a trace are those of the disciplines. -/
theorem stage_step (p : Goroutine) (t : List (StreamedEvent M)) :
    Guarded (fun e t => e.thread = p → ∀ s', streamedEnv e.op e.before e.answer s' →
      p.discipline.step (p.stage t) e.op e.answer (p.stage (e :: t))) t := by
  refine (guarded_true t).imp ?_
  rintro e t - rfl - -
  exact stage_self e t

/-- In every run the goroutines make only calls that they may make. -/
theorem may_of_run (hrun : Run streamedEnv (Request M) c) :
    Guarded (fun e t => e.thread.may (e.thread.stage t) e.op = true) c.trace := by
  have hall : ∀ p : Goroutine, Guarded (fun e t => e.thread = p →
      p.discipline.may (p.stage t) e.op) c.trace := fun p =>
    ((keeps_goroutines p).tracked p.stage (fun _ _ => stage_of_ne) hrun (stage_step p _)).2
  exact (guarded_forall hall).imp fun e t h => h e.thread rfl

/-- A goroutine that has stopped with `false` has panicked. -/
theorem panicked_of_run (hrun : Run streamedEnv (Request M) c)
    (hstopped : c.threads p = .ret false) : p.stage c.trace = .panicked := by
  obtain ⟨hkeeps, -⟩ :=
    (keeps_goroutines p).tracked p.stage (fun _ _ => stage_of_ne) hrun (stage_step p _)
  rw [hstopped] at hkeeps
  exact keeps_ret.1 hkeeps rfl

/-! ### Silence after a cancellation -/

/-- The server receives a cancellation. -/
def receivesCancel : (o : StreamedOp M) → StreamedAns o → Bool
  | .inr .select, .error e => e.is .streamCancel
  | _, _ => false

/-- Something is published. -/
def publishes : StreamedOp M → Bool
  | .inl (.publish _) => true
  | _ => false

/-- A cancellation has been processed. -/
def processedCancel (t : List (StreamedEvent M)) : Bool :=
  t.any fun e => receivesCancel e.op e.answer

/-- Nothing is published once a cancellation has been processed. -/
def Silent (e : StreamedEvent M) (t : List (StreamedEvent M)) : Prop :=
  processedCancel t = true → publishes e.op = false

theorem advance_of_receivesCancel
    (h : receivesCancel o r = true) (p : Goroutine) (l : ReplyStage) : p.advance l o r = .over := by
  unfold receivesCancel at h
  split at h
  · exact if_pos h
  · cases h

theorem eq_server_of_receivesCancel
    (h : receivesCancel o r = true) (hmay : p.may l o = true) : p = .server := by
  unfold receivesCancel at h
  split at h
  · cases p with
    | server => rfl
    | worker => cases hmay
    | callback => cases hmay
  · cases h

theorem server_advance_ne_ready (hl : l ≠ .ready) (o : StreamedOp M)
    (r : StreamedAns o) : Goroutine.server.advance l o r ≠ .ready := by
  unfold Goroutine.advance
  split
  all_goals split <;> first | exact hl | contradiction | nofun

theorem may_publish (h : publishes o = true)
    (hmay : p.may l o = true) : p = .server ∧ l = .ready := by
  unfold publishes at h
  split at h
  · cases p with
    | server => exact ⟨rfl, of_decide_eq_true hmay⟩
    | worker => cases hmay
    | callback => cases hmay
  · cases h

/-- Once a cancellation has been processed, the server is through with its part. -/
theorem server_stage_ne_ready
    (hmay : Guarded (fun e t => e.thread.may (e.thread.stage t) e.op = true) t)
    (hcancel : processedCancel t = true) : Goroutine.server.stage t ≠ .ready := by
  induction t with
  | nil => cases hcancel
  | cons e t ih =>
    rw [processedCancel, List.any_cons, Bool.or_eq_true] at hcancel
    rcases hcancel with hreceives | hbefore
    · have hserver := eq_server_of_receivesCancel hreceives hmay.1
      rw [← hserver, stage_self, advance_of_receivesCancel hreceives]
      nofun
    · have hready := ih hmay.2 hbefore
      by_cases hserver : e.thread = .server
      · rw [← hserver, stage_self, hserver]
        exact server_advance_ne_ready hready e.op e.answer
      · rwa [stage_of_ne hserver]

/-- **Once a cancellation has been processed, nothing is published**, in any run. -/
theorem silent_of_run (hrun : Run streamedEnv (Request M) c) : Guarded Silent c.trace := by
  have hmay := may_of_run hrun
  generalize c.trace = t at hmay
  induction t with
  | nil => trivial
  | cons e t ih =>
    refine ⟨fun hcancel => ?_, ih hmay.2⟩
    by_contra hpublishes
    rw [Bool.not_eq_false] at hpublishes
    obtain ⟨hserver, hready⟩ := may_publish hpublishes hmay.1
    rw [hserver] at hready
    exact server_stage_ne_ready hmay.2 hcancel hready

/-! ### No panics -/

/-- The function returns. -/
def functionReturns : (o : StreamedOp M) → StreamedAns o → Bool
  | .inl .compute, none => true
  | _, _ => false

/-- A cancellation arrives. -/
def cancelArrives : StreamedOp M → Bool
  | .inl .cancelled => true
  | _ => false

/-- The cancellations and the end of the function keep out of each other's way: no cancellation
arrives once the function has returned, and the function does not return while a cancellation is
being sent. -/
def timely (e : StreamedEvent M) (t : List (StreamedEvent M)) : Bool :=
  (!cancelArrives e.op || Goroutine.worker.stage t = .ready) &&
    (!functionReturns e.op e.answer || Goroutine.callback.stage t = .ready)

/-- The state of a request in which nobody has panicked. -/
structure Unharmed (s : StreamedState M) (t : List (StreamedEvent M)) : Prop where
  values : s.2.values.closed = false
  errors : s.2.errors.closed = true → Goroutine.worker.stage t = .over
  callback : Goroutine.worker.stage t ≠ .ready → Goroutine.callback.stage t = .ready
  stages : ∀ p : Goroutine, p.stage t ≠ .panicked

/-- Nobody who may make a call on a channel makes it when the channel of errors is closed. -/
theorem Unharmed.open_of_may {s : StreamedState M} (h : Unharmed s t) {o : StreamOp M Err}
    (ho : o ≠ .select)
    (hmay : p.may (p.stage t) (.inr o) = true) : s.2.errors.closed = false := by
  by_contra hclosed
  rw [Bool.not_eq_false] at hclosed
  have hover := h.errors hclosed
  have hcallback : Goroutine.callback.stage t = .ready := h.callback (by rw [hover]; nofun)
  cases p with
  | server =>
    cases o with
    | select => exact ho rfl
    | _ => cases hmay
  | worker =>
    rw [hover] at hmay
    cases o <;> cases hmay
  | callback =>
    rw [hcallback] at hmay
    cases o <;> cases hmay

/-- A call that a goroutine may make does not panic. -/
theorem Unharmed.not_panics {s s' : StreamedState M} (h : Unharmed s t)
    (hmay : p.may (p.stage t) o = true) (henv : streamedEnv o s r s') :
    StreamedOp.panics o r = false := by
  cases o with
  | inl o => rfl
  | inr o =>
    by_contra hpanics
    rw [Bool.not_eq_false] at hpanics
    have hselect : o ≠ .select := by
      rintro rfl
      cases hpanics
    rcases Streams.closed_of_panics henv.1 hpanics with hclosed | hclosed
    · rw [h.values] at hclosed
      cases hclosed
    · rw [h.open_of_may hselect hmay] at hclosed
      cases hclosed

theorem advance_ne_panicked (hl : l ≠ .panicked) (hpanics : StreamedOp.panics o r = false) :
    p.advance l o r ≠ .panicked := by
  unfold Goroutine.advance
  split
  case h_6 => rwa [hpanics, if_neg Bool.false_ne_true]
  all_goals split <;> first | exact hl | nofun

/-- A worker whose function runs is moved on by the return of the function only. -/
theorem worker_advance_ready
    (hmay : Goroutine.worker.may .ready o = true) (hpanics : StreamedOp.panics o r = false)
    (hreturns : functionReturns o r = false) : Goroutine.worker.advance .ready o r = .ready := by
  unfold Goroutine.advance
  split
  · cases hreturns
  · rfl
  · cases hmay
  · rfl
  · cases hmay
  · rw [hpanics, if_neg Bool.false_ne_true]

theorem worker_may_over (o : StreamedOp M) : Goroutine.worker.may .over o = false := by
  rcases o with o | o <;> cases o <;> rfl

/-- The worker closes the channel of errors, after the function has returned. -/
theorem may_finish
    (hmay : p.may (M := M) l (.inr .finish) = true) : p = .worker ∧ l = .returned := by
  cases p with
  | worker => exact ⟨rfl, of_decide_eq_true hmay⟩
  | server => cases hmay
  | callback => cases hmay

/-- The callback makes its calls when a cancellation arrives, or while it is sending one. -/
theorem callback_may
    (hmay : Goroutine.callback.may l o = true) : l = .sending ∨ cancelArrives o = true := by
  rcases o with o | o <;> cases o <;>
    first
    | exact .inl (of_decide_eq_true hmay)
    | exact .inr rfl
    | cases hmay

section Call

variable {s s' : StreamedState M} {t : List (StreamedEvent M)} {p : Goroutine} {o : StreamedOp M}
  {r : StreamedAns o}

section

variable (h : Unharmed s t) (hmay : p.may (p.stage t) o = true) (henv : streamedEnv o s r s')
include h hmay henv

/-- The channel of errors is closed by the worker, as the last thing it does. -/
theorem Unharmed.errors_call
    (hclosed : s'.2.errors.closed = true) :
    Goroutine.worker.stage (⟨p, s, o, r⟩ :: t) = .over := by
  have hpanics := h.not_panics hmay henv
  have hbefore : s.2.errors.closed = true → Goroutine.worker.stage (⟨p, s, o, r⟩ :: t) = .over := by
    intro hclosed
    have hover := h.errors hclosed
    have hne : p ≠ .worker := by
      rintro rfl
      rw [hover, worker_may_over] at hmay
      cases hmay
    rwa [stage_of_ne hne]
  cases o with
  | inl o => exact hbefore (henv.2 ▸ hclosed)
  | inr o =>
    rw [(Streams.closed_of_env henv.1).2, Bool.or_eq_true] at hclosed
    rcases hclosed with hclosed | hfinishes
    · exact hbefore hclosed
    · cases o with
      | finish =>
        obtain ⟨rfl, hreturned⟩ := may_finish hmay
        obtain rfl : r = true := Bool.not_eq_false' r ▸ hpanics
        exact if_pos rfl
      | _ => cases hfinishes

/-- When the function has returned, no cancellation is being sent. -/
theorem Unharmed.callback_call
    (htimely : timely ⟨p, s, o, r⟩ t = true)
    (hreturned : Goroutine.worker.stage (⟨p, s, o, r⟩ :: t) ≠ .ready) :
    Goroutine.callback.stage (⟨p, s, o, r⟩ :: t) = .ready := by
  simp only [timely, Bool.and_eq_true, Bool.or_eq_true, Bool.not_eq_true', decide_eq_true_eq]
    at htimely
  cases p with
  | server =>
    exact h.callback hreturned
  | worker =>
    change Goroutine.callback.stage t = .ready
    by_cases hready : Goroutine.worker.stage t = .ready
    · refine htimely.2.resolve_left fun hreturns => hreturned ?_
      rw [hready] at hmay
      have hpanics := h.not_panics (hready ▸ hmay) henv
      exact (stage_self _ t).trans ((congrArg (Goroutine.worker.advance · o r) hready).trans
        (worker_advance_ready hmay hpanics hreturns))
    · exact h.callback hready
  | callback =>
    replace hreturned : Goroutine.worker.stage t ≠ .ready := hreturned
    have hidle := h.callback hreturned
    rcases callback_may hmay with hsending | harrives
    · rw [hidle] at hsending
      cases hsending
    · rw [harrives] at htimely
      exact absurd (htimely.1.resolve_left nofun) hreturned

/-- **One call** leaves a request unharmed. -/
theorem Unharmed.call
    (htimely : timely ⟨p, s, o, r⟩ t = true) :
    Unharmed s' (⟨p, s, o, r⟩ :: t) where
  values := by
    cases o with
    | inl o => rw [henv.2, h.values]
    | inr o => rw [(Streams.closed_of_env henv.1).1, h.values]
  errors := h.errors_call hmay henv
  callback := h.callback_call hmay henv htimely
  stages q := by
    by_cases hq : p = q
    · subst hq
      have hself := stage_self (⟨p, s, o, r⟩ : StreamedEvent M) t
      rw [hself]
      exact advance_ne_panicked (h.stages p) (h.not_panics hmay henv)
    · rw [stage_of_ne hq]
      exact h.stages q

end

end Call

/-- **A whole run** leaves a request unharmed. -/
theorem unharmed_of_run (hrun : Run streamedEnv (Request M) c)
    (htimely : Guarded (fun e t => timely e t = true) c.trace) : Unharmed c.state c.trace := by
  induction hrun with
  | refl => exact ⟨rfl, nofun, fun h => absurd rfl h, fun p => nofun⟩
  | tail hbefore hstep ih =>
    have hmay := may_of_run (hbefore.tail hstep)
    cases hstep with
    | call hthread hanswer => exact (ih htimely.2).call hmay.1 hanswer htimely.1
    | unroll => exact ih htimely

/-- **Nobody panics**, and nothing is published once a cancellation has been processed, in every run
in which the cancellations and the end of the function keep out of each other's way. -/
theorem streamedReplies_sound (hrun : Run streamedEnv (Request M) c)
    (htimely : Guarded (fun e t => timely e t = true) c.trace) :
    (∀ p, c.threads p ≠ .ret false) ∧ Guarded Silent c.trace := by
  refine ⟨fun p hstopped => ?_, silent_of_run hrun⟩
  exact (unharmed_of_run hrun htimely).stages p (panicked_of_run hrun hstopped)

end Runs

/-! ### Two requests -/

/-- The choice whether the server receives from the channel of errors. -/
def ReplyChoice.fromErrors : ReplyChoice M → Bool
  | .errors => true
  | _ => false

/-- The choices for all calls of a request. -/
def streamedPick : ReplyChoice M → (o : StreamedOp M) → StreamedState M →
    Option (StreamedAns o × StreamedState M) :=
  pickSum ReplyState.pick fun x => Streams.pick x.fromErrors

theorem exists_streamedRun (sched : List (Goroutine × ReplyChoice M))
    (Q : Config Goroutine (StreamedOp M) StreamedAns (StreamedState M) Bool → Prop)
    [DecidablePred Q] (h : (Request M).reaches streamedPick sched (fun c => Q c) = true) :
    ∃ c, Run streamedEnv (Request M) c ∧ Q c :=
  Config.exists_run_of_reaches (sum_of_pickSum (fun x _ _ _ _ h => ⟨x, h⟩)
    fun x _ _ _ _ h => ⟨x.fromErrors, h⟩) h

/-- The client cancels before the function returns. -/
def inTime : List (Goroutine × ReplyChoice String) :=
  [(.server, .ok), (.server, .ok), (.worker, .ok), (.worker, .ok), (.callback, .ok),
    (.callback, .ok), (.callback, .ok), (.callback, .ok), (.server, .ok), (.server, .errors),
    (.worker, .ok), (.worker, .ok), (.server, .ok)]

/-- The client cancels after the function has returned. -/
def tooLate : List (Goroutine × ReplyChoice String) :=
  [(.server, .ok), (.server, .ok), (.worker, .ok), (.worker, .ok), (.worker, .ok), (.worker, .ok),
    (.callback, .ok), (.callback, .ok), (.callback, .ok)]

theorem streamedReplies_inTime : ∃ c, Run streamedEnv (Request String) c ∧
    processedCancel c.trace = true ∧ (∀ p, c.threads p ≠ .ret false) ∧ Guarded Silent c.trace := by
  obtain ⟨c, hrun, hcancel, hguard⟩ := exists_streamedRun inTime
    (fun c => processedCancel c.trace ∧ Guarded (fun e t => timely e t = true) c.trace)
    (by decide +kernel)
  exact ⟨c, hrun, hcancel, streamedReplies_sound hrun hguard⟩

/-- **The callback panics** when a cancellation arrives after the function has returned. -/
theorem lateCancel_panics : ∃ c, Run streamedEnv (Request String) c ∧
    c.threads .callback = .ret false :=
  exists_streamedRun tooLate _ (by decide +kernel)

end SharWorkflow
