import SharWorkflow.Concurrent.Discipline

/-!
# Channels

Threads may also talk to each other directly, over channels. A value that is sent is queued. The
first values of the queue, as many as the capacity allows, are held in the buffer of the channel;
the senders of the others wait. A channel without a buffer makes every sender wait until the value
is received. A closed channel takes no more values: a send panics, and so does every sender that is
still waiting. What the buffer holds can still be received, and after it the news that there will be
nothing more.

A send is two calls, one that queues the value and is given its number, and one that waits until the
value with this number has got through; so several senders may wait at the same time.

* `Channel`, with `offer`, `settled`, `close` and `receive`: a channel and what can be done with it.
* `Streams`: the two channels of a producer, one without a buffer for values and one with a buffer
  of one for errors, which is closed at the end of the production. The consumer receives from
  whichever channel has something; when both have, either may be chosen.
* `SumAns`, `Environment.sum`: calls of two kinds, against two parts of the state. `Prog.right` is a
  program that uses the second kind only.
-/

namespace Concurrent

open Option

variable {α ε : Type}

/-! ### One channel -/

/-- A channel. The values of the queue are numbered, from `received` on. -/
structure Channel (α : Type) where
  capacity : Nat
  queue : List α := []
  received : Nat := 0
  closed : Bool := false
  deriving DecidableEq

namespace Channel

/-- Queue a value. The answer is its number, or nothing if the sender panics. -/
def offer (c : Channel α) (v : α) : Option Nat × Channel α :=
  if c.closed then (none, c)
  else (some (c.received + c.queue.length), { c with queue := c.queue ++ [v] })

/-- Whether the sender of the value with number `n` may go on (`true`) or panics (`false`). When the
channel is closed, those may go on whose values have got through. -/
def settled (c : Channel α) (n : Nat) : Option Bool :=
  if c.closed then some (n < c.received + c.queue.length)
  else if n < c.received + c.capacity then some true else none

/-- Close the channel. The values of waiting senders are lost. Closing twice panics. -/
def close (c : Channel α) : Bool × Channel α :=
  if c.closed then (false, c)
  else (true, { c with queue := c.queue.take c.capacity, closed := true })

/-- Receive a value, or that there are no more, unless there is nothing to receive yet. -/
def receive (c : Channel α) : Option (Option α × Channel α) :=
  match c.queue with
  | v :: rest => some (some v, { c with queue := rest, received := c.received + 1 })
  | [] => if c.closed then some (none, c) else none

variable {c c' : Channel α} {v : α}

theorem closed_of_offer (h : (c.offer v).1 = none) : c.closed = true := by
  unfold offer at h
  split at h
  · assumption
  · cases h

theorem closed_offer (c : Channel α) (v : α) : (c.offer v).2.closed = c.closed := by
  unfold offer
  split <;> rfl

theorem closed_of_settled {n : Nat} (h : c.settled n = some false) : c.closed = true := by
  unfold settled at h
  split at h
  · assumption
  · split at h <;> cases h

theorem closed_of_close (h : c.close.1 = false) : c.closed = true := by
  unfold close at h
  split at h
  · assumption
  · cases h

theorem closed_close (c : Channel α) : c.close.2.closed = true := by
  unfold close
  split
  · assumption
  · rfl

theorem closed_receive {r : Option α} (h : c.receive = some (r, c')) : c'.closed = c.closed := by
  unfold receive at h
  split at h
  · cases h
    rfl
  · split at h <;> cases h
    rfl

end Channel

/-! ### A producer and a consumer -/

/-- The channels between a producer and a consumer. -/
structure Streams (α ε : Type) where
  values : Channel α := { capacity := 0 }
  errors : Channel ε := { capacity := 1 }
  deriving DecidableEq

/-- The calls of a producer, and `select`, by which the consumer receives. -/
inductive StreamOp (α ε : Type)
  | offer (x : α ⊕ ε)
  | await (error : Bool) (n : Nat)
  | finish
  | select

/-- What the consumer receives. -/
inductive Received (α ε : Type)
  | value (v : α)
  | error (e : ε)
  | finished

/-- The answers to the calls. A call answered by `none` or `false` has panicked. -/
def StreamOp.Ans : StreamOp α ε → Type
  | .offer _ => Option Nat
  | .await _ _ => Bool
  | .finish => Bool
  | .select => Received α ε

/-- The consumer receives from the channel of errors. -/
def Streams.receiveError (s : Streams α ε) : Option (Received α ε × Streams α ε) :=
  match s.errors.receive with
  | none => none
  | some (some e, c) => some (.error e, { s with errors := c })
  | some (none, c) => some (.finished, { s with errors := c })

/-- The consumer receives from the channel of values, which nobody closes. -/
def Streams.receiveValue (s : Streams α ε) : Option (Received α ε × Streams α ε) :=
  match s.values.receive with
  | some (some v, c) => some (.value v, { s with values := c })
  | _ => none

/-- What the calls do. The choice is the channel that the consumer receives from. -/
def Streams.pick (errors : Bool) : (o : StreamOp α ε) → Streams α ε → Option (o.Ans × Streams α ε)
  | .offer (.inl v), s => some ((s.values.offer v).1, { s with values := (s.values.offer v).2 })
  | .offer (.inr e), s => some ((s.errors.offer e).1, { s with errors := (s.errors.offer e).2 })
  | .await error n, s => (if error then s.errors.settled n else s.values.settled n).map (·, s)
  | .finish, s => some (s.errors.close.1, { s with errors := s.errors.close.2 })
  | .select, s => if errors then s.receiveError else s.receiveValue

/-- The channels as an environment. -/
def Streams.env : Environment (StreamOp α ε) StreamOp.Ans (Streams α ε) :=
  fun o s r s' => ∃ errors, Streams.pick errors o s = some (r, s')

/-- A send of a value or of an error. -/
def send (x : α ⊕ ε) : Prog (StreamOp α ε) StreamOp.Ans Bool :=
  .call (.offer x) fun
    | none => .ret false
    | some n => .call (.await x.isRight n) .ret

/-- The call has panicked. -/
def StreamOp.panics : (o : StreamOp α ε) → o.Ans → Bool
  | .offer _, r => r.isNone
  | .await _ _, r => !r
  | .finish, r => !r
  | .select, _ => false

/-- The call closes the channel of errors. -/
def StreamOp.finishes : StreamOp α ε → Bool
  | .finish => true
  | _ => false

namespace Streams

variable {s s' : Streams α ε} {o : StreamOp α ε} {r : o.Ans}

/-- A call panics only if it finds a closed channel. -/
theorem closed_of_panics (h : env o s r s') (hpanics : o.panics r = true) :
    s.values.closed = true ∨ s.errors.closed = true := by
  obtain ⟨errors, h⟩ := h
  cases o with
  | offer x =>
    cases x with
    | inl v =>
      cases h
      exact .inl (Channel.closed_of_offer (isNone_iff_eq_none.1 hpanics))
    | inr e =>
      cases h
      exact .inr (Channel.closed_of_offer (isNone_iff_eq_none.1 hpanics))
  | await error n =>
    obtain ⟨ok, hsettled, heq⟩ := map_eq_some_iff.1 h
    cases heq
    obtain rfl : r = false := Bool.not_eq_true' r ▸ hpanics
    cases error with
    | false => exact .inl (Channel.closed_of_settled hsettled)
    | true => exact .inr (Channel.closed_of_settled hsettled)
  | finish =>
    cases h
    exact .inr (Channel.closed_of_close (by simpa [StreamOp.panics] using hpanics))
  | select => cases hpanics

theorem closed_receiveError {r : Received α ε} (h : s.receiveError = some (r, s')) :
    s'.values.closed = s.values.closed ∧ s'.errors.closed = s.errors.closed := by
  unfold receiveError at h
  split at h
  · cases h
  all_goals
    rename_i hreceive
    cases h
    exact ⟨rfl, Channel.closed_receive hreceive⟩

theorem closed_receiveValue {r : Received α ε} (h : s.receiveValue = some (r, s')) :
    s'.values.closed = s.values.closed ∧ s'.errors.closed = s.errors.closed := by
  unfold receiveValue at h
  split at h
  · rename_i hreceive
    cases h
    exact ⟨Channel.closed_receive hreceive, rfl⟩
  · cases h

/-- Nothing but the end of the production closes a channel. -/
theorem closed_of_env (h : env o s r s') : s'.values.closed = s.values.closed ∧
    s'.errors.closed = (s.errors.closed || o.finishes) := by
  obtain ⟨errors, h⟩ := h
  cases o with
  | offer x =>
    cases x with
    | inl v =>
      cases h
      exact ⟨Channel.closed_offer .., (Bool.or_false _).symm⟩
    | inr e =>
      cases h
      exact ⟨rfl, (Channel.closed_offer ..).trans (Bool.or_false _).symm⟩
  | await error n =>
    obtain ⟨ok, -, heq⟩ := map_eq_some_iff.1 h
    cases heq
    exact ⟨rfl, (Bool.or_false _).symm⟩
  | finish =>
    cases h
    exact ⟨rfl, (Channel.closed_close _).trans (Bool.or_true _).symm⟩
  | select =>
    have hfinishes : (StreamOp.select : StreamOp α ε).finishes = false := rfl
    rw [hfinishes, Bool.or_false]
    cases errors with
    | true => exact closed_receiveError h
    | false => exact closed_receiveValue h

end Streams

/-! ### Calls of two kinds -/

variable {Op₁ Op₂ σ₁ σ₂ β : Type} {Ans₁ : Op₁ → Type} {Ans₂ : Op₂ → Type}

/-- The answers to calls of two kinds. -/
def SumAns (Ans₁ : Op₁ → Type) (Ans₂ : Op₂ → Type) : Op₁ ⊕ Op₂ → Type
  | .inl o => Ans₁ o
  | .inr o => Ans₂ o

/-- Two environments side by side, each with its own part of the state. -/
def Environment.sum (E₁ : Environment Op₁ Ans₁ σ₁) (E₂ : Environment Op₂ Ans₂ σ₂) :
    Environment (Op₁ ⊕ Op₂) (SumAns Ans₁ Ans₂) (σ₁ × σ₂)
  | .inl o, s, r, s' => E₁ o s.1 r s'.1 ∧ s'.2 = s.2
  | .inr o, s, r, s' => E₂ o s.2 r s'.2 ∧ s'.1 = s.1

/-- One choice for the calls of both kinds. -/
def pickSum {κ : Type} (pick₁ : κ → (o : Op₁) → σ₁ → Option (Ans₁ o × σ₁))
    (pick₂ : κ → (o : Op₂) → σ₂ → Option (Ans₂ o × σ₂)) (x : κ) :
    (o : Op₁ ⊕ Op₂) → σ₁ × σ₂ → Option (SumAns Ans₁ Ans₂ o × (σ₁ × σ₂))
  | .inl o, s => (pick₁ x o s.1).map fun a => (a.1, (a.2, s.2))
  | .inr o, s => (pick₂ x o s.2).map fun a => (a.1, (s.1, a.2))

theorem sum_of_pickSum {κ : Type} {pick₁ : κ → (o : Op₁) → σ₁ → Option (Ans₁ o × σ₁)}
    {pick₂ : κ → (o : Op₂) → σ₂ → Option (Ans₂ o × σ₂)} {E₁ : Environment Op₁ Ans₁ σ₁}
    {E₂ : Environment Op₂ Ans₂ σ₂} (h₁ : ∀ x o s r s', pick₁ x o s = some (r, s') → E₁ o s r s')
    (h₂ : ∀ x o s r s', pick₂ x o s = some (r, s') → E₂ o s r s') (x : κ) (o : Op₁ ⊕ Op₂)
    (s : σ₁ × σ₂) (r : SumAns Ans₁ Ans₂ o) (s' : σ₁ × σ₂)
    (h : pickSum pick₁ pick₂ x o s = some (r, s')) : Environment.sum E₁ E₂ o s r s' := by
  cases o with
  | inl o =>
    obtain ⟨a, ha, heq⟩ := map_eq_some_iff.1 h
    cases heq
    exact ⟨h₁ x o s.1 a.1 a.2 ha, rfl⟩
  | inr o =>
    obtain ⟨a, ha, heq⟩ := map_eq_some_iff.1 h
    cases heq
    exact ⟨h₂ x o s.2 a.1 a.2 ha, rfl⟩

namespace Prog

/-- A program that makes calls of the second kind only. -/
def right {α : Type} : Prog Op₂ Ans₂ α → Prog (Op₁ ⊕ Op₂) (SumAns Ans₁ Ans₂) α
  | ret a => ret a
  | call o k => call (.inr o) fun r => (k r).right
  | loop x body k => loop x (fun y => (body y).right) fun b => (k b).right

end Prog

namespace Discipline

variable {L : Type} {l : L} {Q : L → Bool → Prop}
  {D : Discipline (Op₁ ⊕ StreamOp α ε) (SumAns Ans₁ StreamOp.Ans) L}

/-- The rule for a send: `W` holds while the sender waits. -/
theorem keeps_send {x : α ⊕ ε} (W : L → Prop) (hoffer : D.may l (.inr (.offer x)))
    (hpanic : ∀ l', D.step l (.inr (.offer x)) none l' → Q l' false)
    (hwait : ∀ n l', D.step l (.inr (.offer x)) (some n) l' → W l')
    (hmay : ∀ n l, W l → D.may l (.inr (.await x.isRight n)))
    (hdone : ∀ n ok l l', W l → D.step l (.inr (.await x.isRight n)) ok l' → Q l' ok) :
    D.Keeps Q l (send x).right := by
  refine keeps_call.2 ⟨hoffer, fun r l' hstep => ?_⟩
  cases r with
  | none => exact keeps_ret.2 (hpanic l' hstep)
  | some n =>
    have hl' := hwait n l' hstep
    exact keeps_call.2 ⟨hmay n l' hl', fun ok l'' h => keeps_ret.2 (hdone n ok l' l'' hl' h)⟩

end Discipline

end Concurrent
