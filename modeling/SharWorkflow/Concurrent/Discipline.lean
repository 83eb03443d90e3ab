import SharWorkflow.Concurrent.Safety
import Mathlib.Control.Lawful

/-!
# Disciplines for one thread

Where a property of a thread depends only on its own calls and on what it may assume of their
answers, there is no need to follow the thread through interleavings. A `Discipline` is an automaton
for the calls of one thread: it says which calls the thread may make in a state of the automaton,
which answers it has to reckon with, and how an answer moves the automaton.

* `Discipline.Keeps Q l p`: the program `p`, started in the state `l`, makes only calls it may make,
  and whenever it returns, the state and the result meet `Q`.
* `keeps_ret`, `keeps_call`, `keeps_bind`, `keeps_seq`, `keeps_ite`: **weakest preconditions**.
  These are equivalences, so `simp` can turn a program into the condition under which it keeps a
  discipline. `Keeps.loop` and `Keeps.forM` ask for an invariant.
* `Ensures`: the same for a discipline without a state.
* `Keeps.run`: in every interleaving the thread makes only calls that it may make.
  `Keeps.tracked` is for a discipline whose state is read off the trace.
* `Keeps.safe`: a protocol that answers as the discipline expects, and whose ghost values are the
  states of the automaton, accepts every thread that keeps the discipline.
* `recording`, `Keeps.recorded`: the automaton that only writes down the calls with their answers,
  and **what a thread returns in a run**, in terms of its own calls.
-/

namespace Concurrent

open List

variable {ι Op σ L α β δ ε : Type} {Ans : Op → Type}

/-- What one thread may call, and what it has to reckon with. -/
structure Discipline (Op : Type) (Ans : Op → Type) (L : Type) where
  may : L → Op → Prop
  step : L → (o : Op) → Ans o → L → Prop

variable {Q Q' : L → α → Prop} {p : Prog Op Ans α} {f : α → Prog Op Ans β}
  {E : Environment Op Ans σ} {c c' : Config ι Op Ans σ α} {i : ι} {s : σ}
  {threads : ι → Prog Op Ans α}

namespace Discipline

variable (D : Discipline Op Ans L)

/-- One step of the program keeps the discipline and leads into `R`. -/
def Progress (Q : L → α → Prop) (R : L → Prog Op Ans α → Prop) (l : L) : Prog Op Ans α → Prop
  | .ret a => Q l a
  | .call o k => D.may l o ∧ ∀ r l', D.step l o r l' → R l' (k r)
  | .loop x body k => R l (.unroll x body k)

/-- The program keeps the discipline, and its results meet `Q`. -/
def Keeps (Q : L → α → Prop) (l : L) (p : Prog Op Ans α) : Prop :=
  ∃ R : L → Prog Op Ans α → Prop, (∀ l p, R l p → D.Progress Q R l p) ∧ R l p

variable {D} {l : L}

theorem Progress.mono {R R' : L → Prog Op Ans α → Prop} (hQ : ∀ l a, Q l a → Q' l a)
    (hR : ∀ l p, R l p → R' l p) (h : D.Progress Q R l p) :
    D.Progress Q' R' l p := by
  cases p with
  | ret a => exact hQ _ _ h
  | call o k => exact ⟨h.1, fun r l' hstep => hR _ _ (h.2 r l' hstep)⟩
  | loop x body k => exact hR _ _ h

theorem Keeps.progress (h : D.Keeps Q l p) : D.Progress Q (D.Keeps Q) l p := by
  obtain ⟨R, hstep, hp⟩ := h
  exact (hstep l p hp).mono (fun _ _ h => h) fun _ _ hq => ⟨R, hstep, hq⟩

theorem Keeps.of_progress (h : D.Progress Q (D.Keeps Q) l p) : D.Keeps Q l p :=
  ⟨fun l p => D.Progress Q (D.Keeps Q) l p,
    fun _ _ h => h.mono (fun _ _ h => h) fun _ _ h => h.progress, h⟩

/-- A program keeps the discipline if its next step does. -/
theorem keeps_iff_progress : D.Keeps Q l p ↔ D.Progress Q (D.Keeps Q) l p :=
  ⟨Keeps.progress, Keeps.of_progress⟩

/-! ### Weakest preconditions -/

theorem keeps_ret {a : α} : D.Keeps Q l (.ret a) ↔ Q l a := keeps_iff_progress

theorem keeps_call {o : Op} {k : Ans o → Prog Op Ans α} :
    D.Keeps Q l (.call o k) ↔ D.may l o ∧ ∀ r l', D.step l o r l' → D.Keeps Q l' (k r) :=
  keeps_iff_progress

/-- The condition on the results may be weakened. -/
theorem Keeps.mono (h : D.Keeps Q l p) (hQ : ∀ l a, Q l a → Q' l a) : D.Keeps Q' l p := by
  obtain ⟨R, hstep, hp⟩ := h
  exact ⟨R, fun l p hR => (hstep l p hR).mono hQ fun _ _ h => h, hp⟩

theorem keeps_ite {c : Prop} [Decidable c] {q : Prog Op Ans α} :
    D.Keeps Q l (if c then p else q) ↔ (c → D.Keeps Q l p) ∧ (¬ c → D.Keeps Q l q) := by
  by_cases hc : c <;> simp [hc]

theorem Keeps.bind {M : L → α → Prop} {Q : L → β → Prop} (hp : D.Keeps M l p)
    (hf : ∀ l a, M l a → D.Keeps Q l (f a)) : D.Keeps Q l (p.bind f) := by
  refine ⟨fun l q => D.Keeps Q l q ∨ ∃ p, q = p.bind f ∧ D.Keeps M l p, ?_, .inr ⟨p, rfl, hp⟩⟩
  rintro l q (hq | ⟨p, rfl, hp⟩)
  · exact hq.progress.mono (fun _ _ h => h) fun _ _ h => .inl h
  · have hstep := hp.progress
    cases p with
    | ret a => exact (hf l a hstep).progress.mono (fun _ _ h => h) fun _ _ h => .inl h
    | call o k => exact ⟨hstep.1, fun r l' h => .inr ⟨k r, rfl, hstep.2 r l' h⟩⟩
    | loop x body k => exact .inr ⟨.unroll x body k, (Prog.unroll_bind x body k f).symm, hstep⟩

/-- Sequential composition. -/
theorem keeps_bind {Q : L → β → Prop} :
    D.Keeps Q l (p.bind f) ↔ D.Keeps (fun l a => D.Keeps Q l (f a)) l p := by
  refine ⟨fun h => ⟨fun l p => D.Keeps Q l (p.bind f), fun l p hp => ?_, h⟩,
    fun h => h.bind fun _ _ h => h⟩
  cases p with
  | ret a => exact hp
  | call o k => exact hp.progress
  | loop x body k =>
    have hstep := hp.progress
    change D.Keeps Q l ((Prog.unroll x body k).bind f)
    rw [Prog.unroll_bind]
    exact hstep

variable {body : δ → Prog Op Ans (δ ⊕ β)}

/-- **The loop rule.** `P` is the loop invariant, and `M` holds when the loop ends. -/
theorem Keeps.loop {P : L → δ → Prop} {M : L → β → Prop} {x : δ} {k : β → Prog Op Ans α}
    (hl : P l x)
    (hbody : ∀ l x, P l x → D.Keeps (fun l r => match r with
      | .inl y => P l y
      | .inr b => M l b) l (body x))
    (hk : ∀ l b, M l b → D.Keeps Q l (k b)) : D.Keeps Q l (.loop x body k) := by
  let again : δ ⊕ β → Prog Op Ans α := fun
    | .inl y => .loop y body k
    | .inr b => k b
  let B : L → δ ⊕ β → Prop := fun l r => match r with
    | .inl y => P l y
    | .inr b => M l b
  refine ⟨fun l q => D.Keeps Q l q ∨ (∃ x, q = .loop x body k ∧ P l x) ∨
    ∃ p, q = p.bind again ∧ D.Keeps B l p, ?_, .inr (.inl ⟨x, rfl, hl⟩)⟩
  rintro l q (hq | ⟨x, rfl, hP⟩ | ⟨p, rfl, hp⟩)
  · exact hq.progress.mono (fun _ _ h => h) fun _ _ h => .inl h
  · exact .inr (.inr ⟨body x, rfl, hbody l x hP⟩)
  · have hstep := hp.progress
    cases p with
    | ret r =>
      cases r with
      | inl y => exact .inr (.inr ⟨body y, rfl, hbody l y hstep⟩)
      | inr b => exact (hk l b hstep).progress.mono (fun _ _ h => h) fun _ _ h => .inl h
    | call o k' => exact ⟨hstep.1, fun r l' h => .inr (.inr ⟨k' r, rfl, hstep.2 r l' h⟩)⟩
    | loop x' body' k' =>
      exact .inr (.inr ⟨.unroll x' body' k', (Prog.unroll_bind x' body' k' again).symm, hstep⟩)

/-- Every program keeps a discipline that allows every call. -/
theorem keeps_of_free (h : ∀ l o, D.may l o) (l : L) (p : Prog Op Ans α) :
    D.Keeps (fun _ _ => True) l p := by
  refine ⟨fun _ _ => True, fun l p _ => ?_, trivial⟩
  cases p with
  | ret a => trivial
  | call o k => exact ⟨h l o, fun _ _ _ => trivial⟩
  | loop x body k => trivial

/-! ### Programs that may fail -/

theorem keeps_pure {Q : L → Except ε α → Prop} {a : α} :
    D.Keeps Q l (pure a : ExceptT ε (Prog Op Ans) α).run ↔ Q l (.ok a) := keeps_ret

theorem keeps_throw {Q : L → Except ε α → Prop} {e : ε} :
    D.Keeps Q l (throw e : ExceptT ε (Prog Op Ans) α).run ↔ Q l (.error e) := keeps_ret

theorem keeps_run_ite {Q : L → Except ε α → Prop} {c : Prop} [Decidable c]
    {p q : ExceptT ε (Prog Op Ans) α} :
    D.Keeps Q l (if c then p else q).run ↔ (c → D.Keeps Q l p.run) ∧ (¬ c → D.Keeps Q l q.run) := by
  by_cases hc : c <;> simp [hc]

/-- Sequential composition of programs that may fail: an error ends the composition, a result is
handed on. -/
theorem keeps_seq {Q : L → Except ε β → Prop} {p : ExceptT ε (Prog Op Ans) α}
    {f : α → ExceptT ε (Prog Op Ans) β} :
    D.Keeps Q l (p >>= f).run ↔ D.Keeps (fun l r => match r with
      | .ok a => D.Keeps Q l (f a).run
      | .error e => Q l (.error e)) l p.run := by
  have hrun : (p >>= f).run = p.run.bind (ExceptT.bindCont f) := rfl
  rw [hrun, keeps_bind]
  constructor
  · refine fun h => h.mono fun l r hr => ?_
    cases r with
    | ok a => exact hr
    | error e => exact (keeps_ret (Q := Q)).1 hr
  · refine fun h => h.mono fun l r hr => ?_
    cases r with
    | ok a => exact hr
    | error e => exact (keeps_ret (Q := Q)).2 hr

/-- Iteration over a list, with an invariant that sees what is left of the list. -/
theorem Keeps.forM {Q : L → Except ε PUnit → Prop} {f : β → ExceptT ε (Prog Op Ans) PUnit}
    (I : List β → L → Prop) (xs : List β) (hl : I xs l)
    (hstep : ∀ x xs l, I (x :: xs) l → D.Keeps (fun l r => match r with
      | .ok _ => I xs l
      | .error e => Q l (.error e)) l (f x).run)
    (hdone : ∀ l, I [] l → Q l (.ok ⟨⟩)) : D.Keeps Q l (xs.forM f).run := by
  induction xs generalizing l with
  | nil => exact keeps_ret.2 (hdone l hl)
  | cons x xs ih =>
    refine keeps_seq.2 ((hstep x xs l hl).mono fun l r hr => ?_)
    cases r with
    | ok _ => exact ih hr
    | error e => exact hr

/-! ### Disciplines without a state -/

section Stateless

variable {D : Discipline Op Ans Unit} {Q Q' : α → Prop} {R : β → Prop}

/-- The program keeps a discipline without a state, and its results meet `Q`. -/
def Ensures (D : Discipline Op Ans Unit) (Q : α → Prop) (p : Prog Op Ans α) : Prop :=
  D.Keeps (fun _ => Q) () p

theorem ensures_ret {a : α} (h : Q a) : D.Ensures Q (.ret a) :=
  (keeps_ret (Q := fun _ => Q)).2 h

/-- A single call. -/
theorem ensures_perform {o : Op} {Q : Ans o → Prop} (hmay : D.may () o)
    (h : ∀ r, D.step () o r () → Q r) : D.Ensures Q (.perform o) :=
  keeps_call.2 ⟨hmay, fun r _ hr => ensures_ret (h r hr)⟩

theorem Ensures.mono (h : D.Ensures Q p) (hQ : ∀ a, Q a → Q' a) : D.Ensures Q' p :=
  Keeps.mono h fun _ => hQ

theorem Ensures.bind (hp : D.Ensures Q p) (hf : ∀ a, Q a → D.Ensures R (f a)) :
    D.Ensures R (p.bind f) :=
  Keeps.bind hp fun _ => hf

/-- The loop rule: `P` holds of what one iteration hands on to the next one. -/
theorem Ensures.loop {P : δ → Prop} {M : β → Prop} {x : δ} {body : δ → Prog Op Ans (δ ⊕ β)}
    {k : β → Prog Op Ans α} (hx : P x) (hbody : ∀ x, P x → D.Ensures (Sum.elim P M) (body x))
    (hk : ∀ b, M b → D.Ensures Q (k b)) : D.Ensures Q (.loop x body k) := by
  refine Keeps.loop (P := fun _ => P) (M := fun _ => M) hx (fun _ x hx => ?_) fun _ => hk
  refine (hbody x hx).mono fun r hr => ?_
  cases r <;> exact hr

/-- A program that keeps one discipline keeps another one that, in the states of `I`, allows what
the first one allows and reckons with no more answers. -/
theorem Ensures.embed {D' : Discipline Op Ans L} {I : L → Prop}
    (hmay : ∀ {l o}, I l → D.may () o → D'.may l o)
    (hstep : ∀ {l o r l'}, I l → D.may () o → D'.step l o r l' → D.step () o r () ∧ I l')
    (h : D.Ensures Q p) (hl : I l) : D'.Keeps (fun l a => I l ∧ Q a) l p := by
  refine ⟨fun l p => I l ∧ D.Ensures Q p, ?_, hl, h⟩
  rintro l p ⟨hl, hp⟩
  have hprogress := hp.progress
  cases p with
  | ret a => exact ⟨hl, hprogress⟩
  | call o k =>
    refine ⟨hmay hl hprogress.1, fun r l' hr => ?_⟩
    obtain ⟨hr', hl'⟩ := hstep hl hprogress.1 hr
    exact ⟨hl', hprogress.2 r () hr'⟩
  | loop x body k => exact ⟨hl, hprogress⟩

variable {x : ExceptT ε (Prog Op Ans) α} {k : α → ExceptT ε (Prog Op Ans) β}

/-- Sequential composition of programs that may fail. -/
theorem ensures_seq {R : Except ε β → Prop} (h : D.Ensures (fun r => match r with
      | .ok a => D.Ensures R (k a).run
      | .error e => R (.error e)) x.run) : D.Ensures R (x >>= k).run :=
  keeps_seq.2 h

end Stateless

/-! ### Interleavings -/

/-- The environment answers every call as the discipline expects. -/
def Admits (D : Discipline Op Ans L) (E : Environment Op Ans σ) : Prop :=
  ∀ {l o s r s'}, D.may l o → E o s r s' → ∃ l', D.step l o r l'

/-- A loop of some thread is unrolled. -/
theorem Keeps.afterUnroll [DecidableEq ι] {j : ι} {x : δ} {k : β → Prog Op Ans α}
    (h : D.Keeps Q l (c.threads i)) (hthread : c.threads j = .loop x body k) :
    D.Keeps Q l ((c.afterUnroll j (.unroll x body k)).threads i) := by
  by_cases hij : i = j
  · subst hij
    rw [hthread] at h
    have hnext : D.Keeps Q l (.unroll x body k) := h.progress
    simpa [Config.afterUnroll] using hnext
  · simpa [Config.afterUnroll, hij] using h

/-- A thread whose calls are answered as the discipline expects, whatever the environment may answer
otherwise, makes only calls that it may make. -/
theorem Keeps.of_answered [DecidableEq ι] (h : D.Keeps Q l (threads i))
    (hrun : Run E (.start s threads) c)
    (hanswered : ∀ e ∈ c.trace, e.thread = i → ∀ l, D.may l e.op →
      ∃ l', D.step l e.op e.answer l') :
    (∃ l', D.Keeps Q l' (c.threads i)) ∧ ∀ e ∈ c.trace, e.thread = i → ∃ l, D.may l e.op := by
  induction hrun with
  | refl => exact ⟨⟨l, h⟩, fun e he => absurd he not_mem_nil⟩
  | tail _ hstep ih =>
    cases hstep with
    | @call j o k r s' hthread hanswer =>
      obtain ⟨⟨l, hkeeps⟩, hmay⟩ := ih fun e he => hanswered e (mem_cons_of_mem _ he)
      by_cases hij : i = j
      · subst hij
        rw [hthread] at hkeeps
        obtain ⟨hallowed, hnext⟩ := hkeeps.progress
        obtain ⟨l', hmove⟩ := hanswered _ mem_cons_self rfl l hallowed
        refine ⟨⟨l', ?_⟩, forall_mem_cons.2 ⟨fun _ => ⟨l, hallowed⟩, hmay⟩⟩
        simpa [Config.afterCall] using hnext r l' hmove
      · refine ⟨⟨l, ?_⟩, forall_mem_cons.2 ⟨fun hi => absurd hi.symm hij, hmay⟩⟩
        simpa [Config.afterCall, hij] using hkeeps
    | unroll hthread =>
      obtain ⟨⟨l, hkeeps⟩, hmay⟩ := ih hanswered
      exact ⟨⟨l, hkeeps.afterUnroll hthread⟩, hmay⟩

/-- **In every run** a thread that keeps a discipline makes only calls that it may make. -/
theorem Keeps.run [DecidableEq ι] (hE : D.Admits E) (h : D.Keeps Q l (threads i))
    (hrun : Run E (.start s threads) c) : ∀ e ∈ c.trace, e.thread = i → ∃ l, D.may l e.op := by
  refine (h.of_answered hrun fun e he _ l hmay => ?_).2
  obtain ⟨s', henv⟩ := hrun.answered e he
  exact hE hmay henv

/-- A thread whose calls are answered as the discipline expects, where the state of the discipline
is read off the trace, keeps the discipline, and made each of its calls in a state in which it may
make it. -/
theorem Keeps.tracked [DecidableEq ι] (track : List (Event ι Op Ans σ) → L)
    (hothers : ∀ e t, e.thread ≠ i → track (e :: t) = track t)
    (h : D.Keeps Q (track []) (threads i)) (hrun : Run E (.start s threads) c)
    (hanswered : Guarded (fun e t => e.thread = i → ∀ s', E e.op e.before e.answer s' →
      D.step (track t) e.op e.answer (track (e :: t))) c.trace) :
    D.Keeps Q (track c.trace) (c.threads i) ∧
      Guarded (fun e t => e.thread = i → D.may (track t) e.op) c.trace := by
  induction hrun with
  | refl => exact ⟨h, trivial⟩
  | @tail b _ _ hstep ih =>
    cases hstep with
    | @call j o k r s' hthread hanswer =>
      obtain ⟨hkeeps, hmay⟩ := ih hanswered.2
      by_cases hij : i = j
      · subst hij
        rw [hthread] at hkeeps
        have hnext := hkeeps.progress.2 r _ (hanswered.1 rfl s' hanswer)
        exact ⟨by simpa [Config.afterCall] using hnext, fun _ => hkeeps.progress.1, hmay⟩
      · have htrack := hothers ⟨j, b.state, o, r⟩ b.trace (Ne.symm hij)
        refine ⟨?_, fun hj => absurd hj.symm hij, hmay⟩
        simpa [Config.afterCall, hij, htrack] using hkeeps
    | unroll hthread =>
      obtain ⟨hkeeps, hmay⟩ := ih hanswered
      exact ⟨hkeeps.afterUnroll hthread, hmay⟩

/-- **An invariant of a discipline.** A condition on the state and the trace that the calls of the
discipline keep up, and under which they are answered as it expects, holds in every run of threads
that keep the discipline. -/
theorem Keeps.invariant [DecidableEq ι] {D : Discipline Op Ans Unit} {Q : ι → Unit → α → Prop}
    {J : σ → List (Event ι Op Ans σ) → Prop} (h : ∀ i, D.Keeps (Q i) () (threads i))
    (hrun : Run E (.start s threads) c) (hs : J s [])
    (hcall : ∀ e ∈ c.trace, ∀ t s', D.may () e.op → J e.before t → E e.op e.before e.answer s' →
      D.step () e.op e.answer () ∧ J s' (e :: t)) : J c.state c.trace := by
  suffices hall : (∀ i, D.Keeps (Q i) () (c.threads i)) ∧ J c.state c.trace from hall.2
  induction hrun with
  | refl => exact ⟨h, hs⟩
  | @tail b _ _ hstep ih =>
    cases hstep with
    | @call j o k r s' hthread hanswer =>
      obtain ⟨hkeeps, hJ⟩ := ih fun e he => hcall e (mem_cons_of_mem _ he)
      obtain ⟨hmay, hnext⟩ := (hthread ▸ hkeeps j).progress
      obtain ⟨hmove, hJ'⟩ := hcall ⟨j, b.state, o, r⟩ mem_cons_self _ s' hmay hJ hanswer
      refine ⟨fun i => ?_, hJ'⟩
      by_cases hij : i = j
      · subst hij
        simpa [Config.afterCall] using hnext r () hmove
      · simpa [Config.afterCall, hij] using hkeeps i
    | unroll hthread =>
      obtain ⟨hkeeps, hJ⟩ := ih hcall
      exact ⟨fun i => (hkeeps i).afterUnroll hthread, hJ⟩

/-- The protocol answers the thread `i` as the discipline expects, and keeps the state of the
discipline as the ghost value of the thread. -/
structure Governs [DecidableEq ι] (D : Discipline Op Ans L) (Γ : Protocol ι Op Ans σ L) (i : ι) :
    Prop where
  allowed : ∀ {l o}, D.may l o → Γ.allowed o
  restores : ∀ {o s t g r s'}, D.may (g i) o → Γ.inv s t g → Γ.env o s r s' →
    Γ.guard ⟨i, s, o, r⟩ t →
    ∃ l', D.step (g i) o r l' ∧ Γ.inv s' (⟨i, s, o, r⟩ :: t) (Function.update g i l')

/-- **A thread that keeps the discipline is safe** under a protocol that the discipline governs. -/
theorem Keeps.safe [DecidableEq ι] {Γ : Protocol ι Op Ans σ L} (hΓ : D.Governs Γ i)
    (h : D.Keeps Q l p) : Γ.Safe i (fun l _ a => Q l a) l s p := by
  refine ⟨fun l _ p => D.Keeps Q l p, fun l s p hp => ?_, h⟩
  have hstep := hp.progress
  cases p with
  | ret a => exact hstep
  | call o k =>
    refine ⟨hΓ.allowed hstep.1, fun s t g hinv hl _ r s' henv hguard => ?_⟩
    subst hl
    obtain ⟨l', hmove, hinv'⟩ := hΓ.restores hstep.1 hinv henv hguard
    exact ⟨l', hinv', hstep.2 r l' hmove⟩
  | loop x body k => exact hstep

/-! ### Recorded calls -/

/-- The calls of one thread with their answers, newest first. -/
def ownCalls [DecidableEq ι] (i : ι) (t : List (Event ι Op Ans σ)) : List (Σ o : Op, Ans o) :=
  (t.filter fun e => e.thread = i).map fun e => ⟨e.op, e.answer⟩

/-- Every call is allowed and written down. -/
def recording : Discipline Op Ans (List (Σ o : Op, Ans o)) :=
  ⟨fun _ _ => True, fun l o r l' => l' = ⟨o, r⟩ :: l⟩

theorem keeps_recording_call {Q : List (Σ o : Op, Ans o) → α → Prop} {l : List (Σ o : Op, Ans o)}
    {o : Op} {k : Ans o → Prog Op Ans α} :
    recording.Keeps Q l (.call o k) ↔ ∀ r, recording.Keeps Q (⟨o, r⟩ :: l) (k r) :=
  keeps_call.trans ⟨fun h r => h.2 r _ rfl, fun h => ⟨trivial, fun r _ hl => hl ▸ h r⟩⟩

/-- What further calls cannot change holds of whatever a program does. -/
theorem keeps_recording_of_stable {I : List (Σ o : Op, Ans o) → Prop}
    (hstable : ∀ call l, I l → I (call :: l)) {l : List (Σ o : Op, Ans o)} (hl : I l)
    (p : Prog Op Ans α) : recording.Keeps (fun l _ => I l) l p := by
  refine ⟨fun l _ => I l, fun l p hl => ?_, hl⟩
  cases p with
  | ret a => exact hl
  | call o k => exact ⟨trivial, fun r l' hl' => hl' ▸ hstable _ _ hl⟩
  | loop x body k => exact hl

/-- **What a thread makes of its calls** in any run, whatever the other threads do. -/
theorem Keeps.recorded [DecidableEq ι] {Q : List (Σ o : Op, Ans o) → α → Prop}
    (h : recording.Keeps Q [] (threads i)) (hrun : Run E (.start s threads) c) :
    recording.Keeps Q (ownCalls i c.trace) (c.threads i) := by
  refine (h.tracked (ownCalls i) (fun e t he => by simp [ownCalls, he]) hrun ?_).1
  exact (guarded_true _).imp fun e t _ he _ _ => by simp [recording, ownCalls, he]

end Discipline

end Concurrent
