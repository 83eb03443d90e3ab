import Mathlib.Logic.Function.Basic

/-!
# Programs over external calls

A handler of a message-driven service is a sequential program whose only effects are calls to
the outside: a key-value store, a message bus, a clock. `Prog Op Ans α` is such a program with
its calls left open: `Op` is the type of calls, `Ans o` the type of answers to the call `o`, and
`α` the type of results. Nothing here says what a call does; that is the business of an
environment (`Concurrent/Interleaving.lean`), so one program can be run alone, next to others,
or against an environment that injects failures.

* `Prog`: a result, a call with a continuation, or an unbounded loop. The loop is a constructor
  and not a recursion, so programs stay finite data and unrolling a loop is a step of its own.
* `Prog.unroll`: one iteration of a loop, followed by the loop again or by its continuation.
  A loop carries a value from one iteration to the next.
* `Prog.perform`: a single call.
-/

namespace Concurrent

/-- A sequential program over the calls `Op`. In `loop x body k` the body is run, first on `x`,
then on the value it yields with `inl`, until it yields `inr b`; the program continues as
`k b`. -/
inductive Prog (Op : Type) (Ans : Op → Type) : Type → Type 1
  | ret {α : Type} (a : α) : Prog Op Ans α
  | call {α : Type} (o : Op) (k : Ans o → Prog Op Ans α) : Prog Op Ans α
  | loop {α β δ : Type} (x : δ) (body : δ → Prog Op Ans (δ ⊕ β)) (k : β → Prog Op Ans α) :
      Prog Op Ans α

namespace Prog

variable {Op : Type} {Ans : Op → Type} {α β γ δ : Type}

/-- Sequential composition. -/
def bind {α β : Type} : Prog Op Ans α → (α → Prog Op Ans β) → Prog Op Ans β
  | ret a, f => f a
  | call o k, f => call o fun r => (k r).bind f
  | loop x body k, f => loop x body fun b => (k b).bind f

instance : Monad (Prog Op Ans) where
  pure := ret
  bind := bind

/-- The program that makes the call `o` and returns its answer. -/
def perform (o : Op) : Prog Op Ans (Ans o) := call o ret

/-- The result of a program that has returned. -/
def result? : Prog Op Ans α → Option α
  | ret a => some a
  | call _ _ => none
  | loop _ _ _ => none

theorem eq_ret_of_result? {p : Prog Op Ans α} {a : α} (h : p.result? = some a) : p = ret a := by
  cases p <;> cases h
  rfl

/-- Whether a program has returned a result. -/
instance (a : α) [∀ b : α, Decidable (b = a)] : (p : Prog Op Ans α) → Decidable (p = ret a)
  | ret b => decidable_of_iff (b = a) (by simp)
  | call _ _ => .isFalse nofun
  | loop _ _ _ => .isFalse nofun

/-- Whether a program has returned a result of some form. -/
instance (f : β → α) [∀ a, Decidable (∃ b, a = f b)] :
    (p : Prog Op Ans α) → Decidable (∃ b, p = ret (f b))
  | ret a => decidable_of_iff (∃ b, a = f b) (by simp)
  | call _ _ => .isFalse nofun
  | loop _ _ _ => .isFalse nofun

instance (a : α) : Decidable (∃ b, a = b) := .isTrue ⟨a, rfl⟩

instance {ε : Type} [DecidableEq α] (a : α) : (r : Except ε α) → Decidable (r = .ok a)
  | .ok b => decidable_of_iff (b = a) (by simp)
  | .error _ => .isFalse nofun

instance (f : β → α) [∀ a, Decidable (∃ b, a = f b)] :
    (o : Option α) → Decidable (∃ b, o = some (f b))
  | some a => decidable_of_iff (∃ b, a = f b) (by simp)
  | none => .isFalse nofun

instance {ε : Type} : (r : Except ε α) → Decidable (∃ a, r = .ok a)
  | .ok a => .isTrue ⟨a, rfl⟩
  | .error _ => .isFalse nofun

instance {ε : Type} : (r : Except ε α) → Decidable (∃ e, r = .error e)
  | .ok _ => .isFalse nofun
  | .error e => .isTrue ⟨e, rfl⟩

/-- One iteration of a loop: the body, then the loop again or its continuation. -/
def unroll (x : δ) (body : δ → Prog Op Ans (δ ⊕ β)) (k : β → Prog Op Ans α) : Prog Op Ans α :=
  (body x).bind fun
    | .inl y => loop y body k
    | .inr b => k b

@[simp]
theorem pure_eq_ret (a : α) : (pure a : Prog Op Ans α) = ret a := rfl

@[simp]
theorem bind_eq_bind (p : Prog Op Ans α) (f : α → Prog Op Ans β) : p >>= f = p.bind f := rfl

/-- Sequential composition is associative. -/
theorem bind_assoc (p : Prog Op Ans α) (f : α → Prog Op Ans β) (g : β → Prog Op Ans γ) :
    (p.bind f).bind g = p.bind fun a => (f a).bind g := by
  induction p with
  | ret a => rfl
  | call o k ih => exact congrArg (call o) (funext fun r => ih r f)
  | loop x body k _ ih => exact congrArg (loop x body) (funext fun b => ih b f)

theorem bind_ret (p : Prog Op Ans α) : p.bind ret = p := by
  induction p with
  | ret a => rfl
  | call o k ih => exact congrArg (call o) (funext ih)
  | loop x body k _ ih => exact congrArg (loop x body) (funext ih)

/-- The laws of a monad hold. This is not an instance, so that `simp` leaves sequences as they
are. -/
theorem lawfulMonad : LawfulMonad (Prog Op Ans) :=
  LawfulMonad.mk' (Prog Op Ans) bind_ret (fun _ _ => rfl) bind_assoc

/-- Unrolling commutes with what follows the loop. -/
theorem unroll_bind (x : δ) (body : δ → Prog Op Ans (δ ⊕ γ)) (k : γ → Prog Op Ans α)
    (f : α → Prog Op Ans β) : (unroll x body k).bind f = unroll x body fun b => (k b).bind f := by
  rw [unroll, bind_assoc, unroll]
  congr 1
  funext r
  cases r <;> rfl

end Prog

end Concurrent
