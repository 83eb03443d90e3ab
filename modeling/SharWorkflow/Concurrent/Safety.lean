import SharWorkflow.Concurrent.Interleaving

/-!
# Thread-local proofs about interleavings

A rely-guarantee logic for the threads of an interleaving. A `Protocol` fixes the environment, the
calls that threads may make, a condition on the steps under consideration, one **invariant** of
the shared state, the trace and a ghost value per thread, and a preorder on states, the **rely**,
that every call follows. A thread is verified on its own: each of its calls is an allowed one, may
use the invariant, must restore it, and may change the thread's own ghost value and no other
(`Protocol.Safe`). Between two of its calls a thread knows its ghost value, what the invariant says
about a thread with that ghost value, and that the state has only moved along the rely since its
last call.

* `Protocol.Safe i Q l s p`: the thread `i` with ghost value `l`, which last saw the state `s`,
  can run `p` under the protocol, and whenever `p` returns, the result meets `Q`. It is a greatest
  fixed point, so loops need no fuel.
* `Safe.ret`, `Safe.call`, `Safe.loop`, `Safe.bind`, `Safe.mono`: the proof rules. The loop
  rule asks for a loop invariant. `Safe.seq` is the rule for a sequence of programs that may fail.
* `Protocol.sound_of_run`: **adequacy**. In every run whose events meet the condition, the
  invariant holds for some ghost values and every thread is still safe.
* `Sound.returned`: **progress**. If every allowed call has an answer, no thread gets stuck.
-/

namespace Concurrent

variable {ι Op σ L α β δ ε : Type} {Ans : Op → Type}

/-- The terms under which threads share a state: what calls do, which calls threads may make,
which steps are considered, how the state may move, and the invariant that holds between any two
steps. -/
structure Protocol (ι : Type) (Op : Type) (Ans : Op → Type) (σ : Type) (L : Type) where
  env : Environment Op Ans σ
  allowed : Op → Prop
  guard : Event ι Op Ans σ → List (Event ι Op Ans σ) → Prop
  inv : σ → List (Event ι Op Ans σ) → (ι → L) → Prop
  rely : σ → σ → Prop
  rely_refl : ∀ s, rely s s
  rely_trans : ∀ {s s' s''}, rely s s' → rely s' s'' → rely s s''
  rely_env : ∀ {o s r s'}, env o s r s' → rely s s'

variable {Q' : L → σ → α → Prop} {p : Prog Op Ans α} {f : α → ExceptT ε (Prog Op Ans) β}
  {Q : ι → L → σ → α → Prop} {c c' : Config ι Op Ans σ α} {g : ι → L}

namespace Protocol

variable [DecidableEq ι] (Γ : Protocol ι Op Ans σ L)

/-- One step of the thread `i`, which last saw `s₀`, keeps the protocol and leads into `R`. -/
def Progress (i : ι) (Q : L → σ → α → Prop) (R : L → σ → Prog Op Ans α → Prop) (l : L) (s₀ : σ) :
    Prog Op Ans α → Prop
  | .ret a => Q l s₀ a
  | .call o k => Γ.allowed o ∧ ∀ s t g, Γ.inv s t g → g i = l → Γ.rely s₀ s →
      ∀ r s', Γ.env o s r s' → Γ.guard ⟨i, s, o, r⟩ t →
      ∃ l', Γ.inv s' (⟨i, s, o, r⟩ :: t) (Function.update g i l') ∧ R l' s' (k r)
  | .loop x body k => R l s₀ (.unroll x body k)

/-- **Safety** of the program `p` in the thread `i` with ghost value `l` that last saw `s`: there
is a relation that contains `(l, s, p)` and is closed under the steps of the thread. -/
def Safe (i : ι) (Q : L → σ → α → Prop) (l : L) (s : σ) (p : Prog Op Ans α) : Prop :=
  ∃ R : L → σ → Prog Op Ans α → Prop, (∀ l s p, R l s p → Γ.Progress i Q R l s p) ∧ R l s p

variable {Γ} {i : ι} {l : L} {s₀ : σ}

theorem Progress.mono {Q : L → σ → α → Prop} {R R' : L → σ → Prog Op Ans α → Prop}
    (hQ : ∀ l s a, Q l s a → Q' l s a) (hR : ∀ l s p, R l s p → R' l s p)
    (h : Γ.Progress i Q R l s₀ p) : Γ.Progress i Q' R' l s₀ p := by
  cases p with
  | ret a => exact hQ _ _ _ h
  | call o k =>
    refine ⟨h.1, fun s t g hinv hl hrely r s' he hg => ?_⟩
    obtain ⟨l', hinv', hR'⟩ := h.2 s t g hinv hl hrely r s' he hg
    exact ⟨l', hinv', hR _ _ _ hR'⟩
  | loop x body k => exact hR _ _ _ h

/-- Safety unfolds to one step followed by safety. -/
theorem Safe.progress {Q : L → σ → α → Prop} (h : Γ.Safe i Q l s₀ p) :
    Γ.Progress i Q (Γ.Safe i Q) l s₀ p := by
  obtain ⟨R, hstep, hp⟩ := h
  exact (hstep l s₀ p hp).mono (fun _ _ _ h => h) fun _ _ _ hq => ⟨R, hstep, hq⟩

theorem Safe.of_progress {Q : L → σ → α → Prop}
    (h : Γ.Progress i Q (Γ.Safe i Q) l s₀ p) : Γ.Safe i Q l s₀ p :=
  ⟨fun l s p => Γ.Progress i Q (Γ.Safe i Q) l s p,
    fun _ _ _ h => h.mono (fun _ _ _ h => h) fun _ _ _ h => h.progress, h⟩

/-! ### Proof rules -/

theorem Safe.ret {Q : L → σ → α → Prop} {a : α} (h : Q l s₀ a) : Γ.Safe i Q l s₀ (.ret a) :=
  .of_progress h

/-- **The call rule**: use the invariant, restore it, continue with a new ghost value. -/
theorem Safe.call {Q : L → σ → α → Prop} {o : Op} {k : Ans o → Prog Op Ans α}
    (hallowed : Γ.allowed o)
    (h : ∀ s t g, Γ.inv s t g → g i = l → Γ.rely s₀ s → ∀ r s', Γ.env o s r s' →
      Γ.guard ⟨i, s, o, r⟩ t →
      ∃ l', Γ.inv s' (⟨i, s, o, r⟩ :: t) (Function.update g i l') ∧ Γ.Safe i Q l' s' (k r)) :
    Γ.Safe i Q l s₀ (.call o k) :=
  .of_progress ⟨hallowed, h⟩

theorem Safe.mono {Q : L → σ → α → Prop} (h : Γ.Safe i Q l s₀ p)
    (hQ : ∀ l s a, Q l s a → Q' l s a) : Γ.Safe i Q' l s₀ p := by
  obtain ⟨R, hstep, hp⟩ := h
  exact ⟨R, fun l s p hR => (hstep l s p hR).mono hQ fun _ _ _ h => h, hp⟩

/-- A conditional. -/
theorem Safe.ite {Q : L → σ → α → Prop} {c : Prop} [Decidable c] {q : Prog Op Ans α}
    (hp : c → Γ.Safe i Q l s₀ p) (hq : ¬ c → Γ.Safe i Q l s₀ q) :
    Γ.Safe i Q l s₀ (if c then p else q) := by
  split
  · exact hp ‹_›
  · exact hq ‹_›

/-- **Sequential composition.** -/
theorem Safe.bind {M : L → σ → α → Prop} {Q : L → σ → β → Prop}
    {f : α → Prog Op Ans β} (hp : Γ.Safe i M l s₀ p)
    (hf : ∀ l s a, M l s a → Γ.Safe i Q l s (f a)) : Γ.Safe i Q l s₀ (p.bind f) := by
  refine ⟨fun l s q => Γ.Safe i Q l s q ∨ ∃ p, q = p.bind f ∧ Γ.Safe i M l s p, ?_,
    .inr ⟨p, rfl, hp⟩⟩
  rintro l s q (hq | ⟨p, rfl, hp⟩)
  · exact hq.progress.mono (fun _ _ _ h => h) fun _ _ _ h => .inl h
  · have hstep := hp.progress
    cases p with
    | ret a => exact (hf l s a hstep).progress.mono (fun _ _ _ h => h) fun _ _ _ h => .inl h
    | call o k =>
      refine ⟨hstep.1, fun s t g hinv hl hrely r s' he hg => ?_⟩
      obtain ⟨l', hinv', hk⟩ := hstep.2 s t g hinv hl hrely r s' he hg
      exact ⟨l', hinv', .inr ⟨k r, rfl, hk⟩⟩
    | loop x body k =>
      refine .inr ⟨.unroll x body k, ?_, hstep⟩
      rw [Prog.unroll_bind]

/-- **The loop rule.** `P` is the loop invariant: it holds of the ghost value, of the state last
seen and of the carried value before every iteration, and an iteration that ends the loop with
`b` leads to `M · · b`. -/
theorem Safe.loop {P : L → σ → δ → Prop} {M : L → σ → β → Prop} {Q : L → σ → α → Prop} {x : δ}
    {body : δ → Prog Op Ans (δ ⊕ β)} {k : β → Prog Op Ans α} (hl : P l s₀ x)
    (hbody : ∀ l s x, P l s x → Γ.Safe i (fun l s r => match r with
      | .inl y => P l s y
      | .inr b => M l s b) l s (body x))
    (hk : ∀ l s b, M l s b → Γ.Safe i Q l s (k b)) : Γ.Safe i Q l s₀ (.loop x body k) := by
  let again : δ ⊕ β → Prog Op Ans α := fun
    | .inl y => .loop y body k
    | .inr b => k b
  let B : L → σ → δ ⊕ β → Prop := fun l s r => match r with
    | .inl y => P l s y
    | .inr b => M l s b
  -- the loop itself, the rest of one iteration, or what follows the loop
  refine ⟨fun l s q => Γ.Safe i Q l s q ∨ (∃ x, q = .loop x body k ∧ P l s x) ∨
    ∃ p, q = p.bind again ∧ Γ.Safe i B l s p, ?_, .inr (.inl ⟨x, rfl, hl⟩)⟩
  rintro l s q (hq | ⟨x, rfl, hP⟩ | ⟨p, rfl, hp⟩)
  · exact hq.progress.mono (fun _ _ _ h => h) fun _ _ _ h => .inl h
  · exact .inr (.inr ⟨body x, rfl, hbody l s x hP⟩)
  · have hstep := hp.progress
    cases p with
    | ret r =>
      cases r with
      | inl y => exact .inr (.inr ⟨body y, rfl, hbody l s y hstep⟩)
      | inr b => exact (hk l s b hstep).progress.mono (fun _ _ _ h => h) fun _ _ _ h => .inl h
    | call o k' =>
      refine ⟨hstep.1, fun s t g hinv hl hrely r s' he hg => ?_⟩
      obtain ⟨l', hinv', hk'⟩ := hstep.2 s t g hinv hl hrely r s' he hg
      exact ⟨l', hinv', .inr (.inr ⟨k' r, rfl, hk'⟩)⟩
    | loop x' body' k' =>
      refine .inr (.inr ⟨.unroll x' body' k', ?_, hstep⟩)
      rw [Prog.unroll_bind]

/-! ### Programs that may fail -/

/-- Sequential composition of programs that may fail, read forwards: an error ends the
composition, a result is handed on. -/
theorem Safe.seq {Q : L → σ → Except ε β → Prop} {p : ExceptT ε (Prog Op Ans) α}
    (hp : Γ.Safe i (fun l s r => match r with
      | .ok a => Γ.Safe i Q l s (f a).run
      | .error e => Q l s (.error e)) l s₀ p.run) : Γ.Safe i Q l s₀ (p >>= f).run :=
  hp.bind fun _ _ r h => match r with
    | .ok _ => h
    | .error _ => .ret h

/-! ### Adequacy -/

/-- The invariant holds for the ghost values `g`, and every thread is safe with its own, having
last seen a state from which the present one has moved along the rely. -/
structure Sound (Γ : Protocol ι Op Ans σ L) (Q : ι → L → σ → α → Prop)
    (c : Config ι Op Ans σ α) (g : ι → L) : Prop where
  inv : Γ.inv c.state c.trace g
  safe : ∀ i, ∃ s, Γ.rely s c.state ∧ Γ.Safe i (Q i) (g i) s (c.threads i)

theorem Sound.step
    (h : Γ.Sound Q c g) (hstep : Step Γ.env c c') (hguard : Guarded Γ.guard c'.trace) :
    ∃ g', Γ.Sound Q c' g' := by
  cases hstep with
  | @call i o k r s' hthread hanswer =>
    obtain ⟨s, hrely, hsafe⟩ := h.safe i
    have hi := hsafe.progress
    rw [hthread] at hi
    obtain ⟨l', hinv, hk⟩ := hi.2 c.state c.trace g h.inv rfl hrely r s' hanswer hguard.1
    refine ⟨Function.update g i l', hinv, fun j => ?_⟩
    by_cases hj : j = i
    · subst hj
      exact ⟨s', Γ.rely_refl s', by simpa [Config.afterCall] using hk⟩
    · obtain ⟨sj, hrelyj, hsafej⟩ := h.safe j
      exact ⟨sj, Γ.rely_trans hrelyj (Γ.rely_env hanswer), by
        simpa [Config.afterCall, hj] using hsafej⟩
  | @unroll i _ _ x body k hthread =>
    refine ⟨g, h.inv, fun j => ?_⟩
    obtain ⟨s, hrely, hsafe⟩ := h.safe j
    refine ⟨s, hrely, ?_⟩
    by_cases hj : j = i
    · subst hj
      have hi := hsafe.progress
      rw [hthread] at hi
      have hbody : Γ.Safe j (Q j) (g j) s (.unroll x body k) := hi
      simpa [Config.afterUnroll] using hbody
    · simpa [Config.afterUnroll, hj] using hsafe

theorem guarded_of_step {G : Event ι Op Ans σ → List (Event ι Op Ans σ) → Prop}
    {E : Environment Op Ans σ} (hstep : Step E c c')
    (h : Guarded G c'.trace) : Guarded G c.trace := by
  cases hstep with
  | call _ _ => exact h.2
  | unroll _ => exact h

/-- **Adequacy.** From a sound configuration every run whose events meet the condition leads to
a sound configuration. -/
theorem sound_of_run {c₀ : Config ι Op Ans σ α} {g₀ : ι → L}
    (h₀ : Γ.Sound Q c₀ g₀) (hrun : Run Γ.env c₀ c) (hguard : Guarded Γ.guard c.trace) :
    ∃ g, Γ.Sound Q c g := by
  induction hrun with
  | refl => exact ⟨g₀, h₀⟩
  | tail _ hstep ih =>
    obtain ⟨g, hg⟩ := ih (guarded_of_step hstep hguard)
    exact hg.step hstep hguard

/-- The start configuration is sound when the invariant holds and every thread is safe. -/
theorem sound_start {s : σ} {threads : ι → Prog Op Ans α}
    (hinv : Γ.inv s [] g) (hsafe : ∀ i, Γ.Safe i (Q i) (g i) s (threads i)) :
    Γ.Sound Q (.start s threads) g :=
  ⟨hinv, fun i => ⟨s, Γ.rely_refl s, hsafe i⟩⟩

/-- A thread that has returned meets its postcondition, in a state it has seen. -/
theorem Sound.result (h : Γ.Sound Q c g) {i : ι} {a : α} (hi : c.threads i = .ret a) :
    ∃ s, Γ.rely s c.state ∧ Q i (g i) s a := by
  obtain ⟨s, hrely, hsafe⟩ := h.safe i
  have hres := hsafe.progress
  rw [hi] at hres
  exact ⟨s, hrely, hres⟩

/-- A thread that is about to make a call is allowed to. -/
theorem Sound.allowed (h : Γ.Sound Q c g) {i : ι} {o : Op} {k : Ans o → Prog Op Ans α}
    (hi : c.threads i = .call o k) : Γ.allowed o := by
  obtain ⟨s, -, hsafe⟩ := h.safe i
  have hstep := hsafe.progress
  rw [hi] at hstep
  exact hstep.1

/-- **Progress.** When every allowed call has an answer, a sound configuration from which no
step is possible is one in which all threads have returned. -/
theorem Sound.returned (h : Γ.Sound Q c g) (hanswers : ∀ o s, Γ.allowed o → ∃ r s', Γ.env o s r s')
    (hdone : ∀ c', ¬ Step Γ.env c c') (i : ι) : ∃ a, c.threads i = .ret a := by
  cases hi : c.threads i with
  | ret a => exact ⟨a, rfl⟩
  | call o k =>
    obtain ⟨r, s', henv⟩ := hanswers o c.state (h.allowed hi)
    exact (hdone _ (.call hi henv)).elim
  | loop x body k => exact (hdone _ (.unroll hi)).elim

end Protocol

end Concurrent
