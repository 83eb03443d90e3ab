import SharWorkflow.Concurrent.Program
import Mathlib.Logic.Relation

/-!
# Interleavings of programs

Several programs run side by side against one shared state. A call is atomic; between two calls
of one program any other program may make any number of calls. What a call does is given by an
environment, a relation between the state before, the answer and the state after, so a call may
fail, or answer in several ways.

* `Event`, `Config`: a call that was made, with the state it was made in, and a configuration:
  the shared state, what is left of each thread, and the trace of the calls so far, newest first.
* `Step`, `Run`: one step of some thread, and any number of steps.
* `Guarded`: every event of a trace meets a condition on the event and on the trace before it.
  Statements about *the runs whose steps all meet a condition* take it as a hypothesis on the
  trace of the run.
* `Config.runSchedule`: the executable counterpart. A schedule names at each step the thread
  that moves and a choice for the environment; `Config.run_of_runSchedule` turns an evaluated
  schedule into a `Run`.
-/

namespace Concurrent

open List

variable {ι κ Op σ α β : Type} {Ans : Op → Type}

/-- A call that was made: by whom, in which state, and how it was answered. -/
structure Event (ι : Type) (Op : Type) (Ans : Op → Type) (σ : Type) where
  thread : ι
  before : σ
  op : Op
  answer : Ans op

/-- What calls do: `E o s r s'` when the call `o`, made in the state `s`, may be answered by `r`
and leave the state `s'`. -/
abbrev Environment (Op : Type) (Ans : Op → Type) (σ : Type) : Type :=
  (o : Op) → σ → Ans o → σ → Prop

/-- A configuration of threads indexed by `ι`. The trace lists the newest event first. -/
structure Config (ι : Type) (Op : Type) (Ans : Op → Type) (σ α : Type) where
  state : σ
  threads : ι → Prog Op Ans α
  trace : List (Event ι Op Ans σ)

/-- The configuration in which nothing has happened yet. -/
def Config.start (s : σ) (threads : ι → Prog Op Ans α) : Config ι Op Ans σ α := ⟨s, threads, []⟩

variable {s : σ} {threads : ι → Prog Op Ans α} {c : Config ι Op Ans σ α} {S : σ → Prop}

section Step

variable [DecidableEq ι]

/-- The configuration after the thread `i` has made the call `o` with answer `r`. -/
def Config.afterCall (c : Config ι Op Ans σ α) (i : ι) (o : Op) (r : Ans o) (s' : σ)
    (k : Ans o → Prog Op Ans α) : Config ι Op Ans σ α where
  state := s'
  threads := Function.update c.threads i (k r)
  trace := ⟨i, c.state, o, r⟩ :: c.trace

/-- The configuration after the thread `i` has become `p` without a call. -/
def Config.afterUnroll (c : Config ι Op Ans σ α) (i : ι) (p : Prog Op Ans α) :
    Config ι Op Ans σ α :=
  { c with threads := Function.update c.threads i p }

/-- **One step** of one thread: a call, or the unrolling of a loop. -/
inductive Step (E : Environment Op Ans σ) :
    Config ι Op Ans σ α → Config ι Op Ans σ α → Prop
  | call {c : Config ι Op Ans σ α} {i : ι} {o : Op} {k : Ans o → Prog Op Ans α} {r : Ans o}
      {s' : σ} (thread : c.threads i = .call o k) (answered : E o c.state r s') :
      Step E c (c.afterCall i o r s' k)
  | unroll {c : Config ι Op Ans σ α} {i : ι} {β δ : Type} {x : δ}
      {body : δ → Prog Op Ans (δ ⊕ β)} {k : β → Prog Op Ans α}
      (thread : c.threads i = .loop x body k) :
      Step E c (c.afterUnroll i (.unroll x body k))

/-- Any number of steps. -/
abbrev Run (E : Environment Op Ans σ) : Config ι Op Ans σ α → Config ι Op Ans σ α → Prop :=
  Relation.ReflTransGen (Step E)

variable {E : Environment Op Ans σ}

/-- Every event of a run is an answered call. -/
theorem Run.answered (h : Run E (.start s threads) c) :
    ∀ e ∈ c.trace, ∃ s', E e.op e.before e.answer s' := by
  induction h with
  | refl => exact fun e he => absurd he not_mem_nil
  | tail _ hstep ih =>
    cases hstep with
    | @call i o k r s' _ hanswer =>
      intro e he
      rcases mem_cons.1 he with rfl | he
      · exact ⟨s', hanswer⟩
      · exact ih e he
    | unroll => exact ih

/-- What holds at the start and every call keeps up holds always. -/
theorem Run.holds_always (h : Run E (.start s threads) c) (hs : S s)
    (hkeep : ∀ e ∈ c.trace, ∀ s', S e.before → E e.op e.before e.answer s' → S s') :
    S c.state ∧ ∀ e ∈ c.trace, S e.before := by
  induction h with
  | refl => exact ⟨hs, fun e he => absurd he not_mem_nil⟩
  | tail _ hstep ih =>
    cases hstep with
    | @call i o k r s' _ hanswer =>
      obtain ⟨hstate, htrace⟩ := ih fun e he => hkeep e (mem_cons_of_mem _ he)
      exact ⟨hkeep _ mem_cons_self s' hstate hanswer, forall_mem_cons.2 ⟨hstate, htrace⟩⟩
    | unroll => exact ih hkeep

/-- What a call brings about and later calls keep up holds ever since. -/
theorem Run.holds_since (h : Run E (.start s threads) c) {later earlier : List (Event ι Op Ans σ)}
    {e : Event ι Op Ans σ} (htrace : c.trace = later ++ e :: earlier)
    (hset : ∀ s', E e.op e.before e.answer s' → S s')
    (hkeep : ∀ e ∈ later, ∀ s', S e.before → E e.op e.before e.answer s' → S s') :
    S c.state ∧ ∀ e ∈ later, S e.before := by
  induction h generalizing later with
  | refl => cases later <;> cases htrace
  | tail _ hstep ih =>
    cases hstep with
    | @call i o k r s' _ hanswer =>
      cases later with
      | nil =>
        obtain ⟨rfl, -⟩ := List.cons.inj htrace
        exact ⟨hset s' hanswer, fun e he => absurd he not_mem_nil⟩
      | cons e' later =>
        obtain ⟨rfl, hbefore⟩ := List.cons.inj htrace
        obtain ⟨hstate, hlater⟩ := ih hbefore fun e he => hkeep e (mem_cons_of_mem _ he)
        exact ⟨hkeep _ mem_cons_self s' hstate hanswer,
          forall_mem_cons.2 ⟨hstate, hlater⟩⟩
    | unroll => exact ih htrace hkeep

end Step

/-! ### Conditions on the steps of a run -/

/-- Every event of the trace meets the condition `G`, which also sees the trace before it. -/
def Guarded (G : Event ι Op Ans σ → List (Event ι Op Ans σ) → Prop) : List (Event ι Op Ans σ) → Prop
  | [] => True
  | e :: t => G e t ∧ Guarded G t

variable {t : List (Event ι Op Ans σ)}

theorem Guarded.imp {G G' : Event ι Op Ans σ → List (Event ι Op Ans σ) → Prop} (h : Guarded G t)
    (hG : ∀ e t, G e t → G' e t) : Guarded G' t := by
  induction t with
  | nil => trivial
  | cons e t ih => exact ⟨hG e t h.1, ih h.2⟩

theorem guarded_forall {G : κ → Event ι Op Ans σ → List (Event ι Op Ans σ) → Prop}
    (h : ∀ x, Guarded (G x) t) : Guarded (fun e t => ∀ x, G x e t) t := by
  induction t with
  | nil => trivial
  | cons e t ih => exact ⟨fun x => (h x).1, ih fun x => (h x).2⟩

theorem guarded_true (t : List (Event ι Op Ans σ)) : Guarded (fun _ _ => True) t := by
  induction t with
  | nil => trivial
  | cons e t ih => exact ⟨trivial, ih⟩

instance decidableGuarded (G : Event ι Op Ans σ → List (Event ι Op Ans σ) → Prop)
    [∀ e t, Decidable (G e t)] : (t : List (Event ι Op Ans σ)) → Decidable (Guarded G t)
  | [] => isTrue trivial
  | e :: t =>
    have := decidableGuarded G t
    inferInstanceAs (Decidable (G e t ∧ Guarded G t))

/-! ### Executing a schedule -/

variable {c' : Config ι Op Ans σ α} {sched : List (ι × κ)}

section Schedule

variable [DecidableEq ι]

/-- One step of the thread `i`, with the choice `x` for the environment. -/
def Config.advance (pick : κ → (o : Op) → σ → Option (Ans o × σ))
    (c : Config ι Op Ans σ α) (i : ι) (x : κ) : Option (Config ι Op Ans σ α) :=
  match c.threads i with
  | .ret _ => none
  | .call o k =>
    match pick x o c.state with
    | none => none
    | some (r, s') => some (c.afterCall i o r s' k)
  | .loop y body k => some (c.afterUnroll i (.unroll y body k))

/-- The steps of a schedule, one after the other. -/
def Config.runSchedule (pick : κ → (o : Op) → σ → Option (Ans o × σ)) :
    Config ι Op Ans σ α → List (ι × κ) → Option (Config ι Op Ans σ α)
  | c, [] => some c
  | c, (i, x) :: rest =>
    match c.advance pick i x with
    | none => none
    | some c' => c'.runSchedule pick rest

variable {E : Environment Op Ans σ} {pick : κ → (o : Op) → σ → Option (Ans o × σ)}

theorem Config.step_of_advance (hpick : ∀ x o s r s', pick x o s = some (r, s') → E o s r s')
    {i : ι} {x : κ} (h : c.advance pick i x = some c') : Step E c c' := by
  unfold Config.advance at h
  split at h
  · cases h
  · rename_i o k hthread
    split at h
    · cases h
    · rename_i r s' hanswer
      cases h
      exact .call hthread (hpick x o c.state r s' hanswer)
  · rename_i hthread
    cases h
    exact .unroll hthread

/-- **Evaluated schedules are runs**, when every choice of `pick` is allowed by the
environment. -/
theorem Config.run_of_runSchedule (hpick : ∀ x o s r s', pick x o s = some (r, s') → E o s r s')
    (h : c.runSchedule pick sched = some c') : Run E c c' := by
  induction sched generalizing c with
  | nil =>
    cases h
    exact .refl
  | cons step rest ih =>
    simp only [Config.runSchedule] at h
    split at h
    · cases h
    · rename_i c₁ hstep
      exact .head (Config.step_of_advance hpick hstep) (ih h)

/-- The schedule can be executed, and the configuration it leads to passes the test. -/
def Config.reaches (pick : κ → (o : Op) → σ → Option (Ans o × σ)) (c : Config ι Op Ans σ α)
    (sched : List (ι × κ)) (test : Config ι Op Ans σ α → Bool) : Bool :=
  match c.runSchedule pick sched with
  | none => false
  | some c' => test c'

theorem Config.exists_run_of_reaches (hpick : ∀ x o s r s', pick x o s = some (r, s') → E o s r s')
    {Q : Config ι Op Ans σ α → Prop} [DecidablePred Q]
    (h : c.reaches pick sched (fun c => Q c) = true) : ∃ c', Run E c c' ∧ Q c' := by
  unfold Config.reaches at h
  split at h
  · cases h
  · exact ⟨_, Config.run_of_runSchedule hpick ‹_›, of_decide_eq_true h⟩

end Schedule

end Concurrent
