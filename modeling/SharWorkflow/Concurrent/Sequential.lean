import SharWorkflow.Concurrent.Interleaving
import Mathlib.Control.Lawful

/-!
# One program alone

A program that runs without any other next to it. Its calls are answered by an environment, which
may leave several answers open, so a program has many executions.

* `Exec`: **one execution**, from a state to a state and a result.
* `Ends`: **total correctness**. However its calls are answered, the program returns, and the state
  and the result meet a condition. A call that is never answered, a crash of the program, is let
  pass under a proposition `X`; with `X := False` the program never crashes.
* `Can`: some execution ends in a state and a result that meet a condition.
* `Ends.exec`, `Ends.can`, `Exec.run`, `exec_of_run`: how the three and the runs of `Interleaving`
  hang together. `run_bind`: where a run of a sequence stands.

The rules for `Ends` are equivalences, so `simp` turns a program into the condition under which it
ends as it should.
-/

namespace Concurrent

open Function

variable {Op σ α β δ ε : Type} {Ans : Op → Type}

/-! ### Executions -/

/-- The program, started in the first state, returns the result and leaves the second state. -/
inductive Exec (E : Environment Op Ans σ) : σ → Prog Op Ans α → σ → α → Prop
  | ret {s : σ} {a : α} : Exec E s (.ret a) s a
  | call {s s' s'' : σ} {o : Op} {k : Ans o → Prog Op Ans α} {r : Ans o} {a : α}
      (answered : E o s r s') (rest : Exec E s' (k r) s'' a) : Exec E s (.call o k) s'' a
  | loop {s s' : σ} {β δ : Type} {x : δ} {body : δ → Prog Op Ans (δ ⊕ β)} {k : β → Prog Op Ans α}
      {a : α} (rest : Exec E s (.unroll x body k) s' a) : Exec E s (.loop x body k) s' a

/-- The program returns in every execution, with a state and a result that meet `Q`. -/
inductive Ends (E : Environment Op Ans σ) (X : Prop) (Q : σ → α → Prop) :
    σ → Prog Op Ans α → Prop
  | ret {s : σ} {a : α} (h : Q s a) : Ends E X Q s (.ret a)
  | call {s : σ} {o : Op} {k : Ans o → Prog Op Ans α} (answered : X ∨ ∃ r s', E o s r s')
      (rest : ∀ r s', E o s r s' → Ends E X Q s' (k r)) : Ends E X Q s (.call o k)
  | loop {s : σ} {β δ : Type} {x : δ} {body : δ → Prog Op Ans (δ ⊕ β)} {k : β → Prog Op Ans α}
      (rest : Ends E X Q s (.unroll x body k)) : Ends E X Q s (.loop x body k)

/-- The program may return with a state and a result that meet `Q`. -/
def Can (E : Environment Op Ans σ) (Q : σ → α → Prop) (s : σ) (p : Prog Op Ans α) : Prop :=
  ∃ s' a, Exec E s p s' a ∧ Q s' a

variable {E : Environment Op Ans σ} {X : Prop} {s : σ}

variable {p : Prog Op Ans α} {f : α → Prog Op Ans β} {s' : σ} {a : α}

theorem Exec.bind {s'' : σ} {b : β}
    (hp : Exec E s p s' a) (hf : Exec E s' (f a) s'' b) : Exec E s (p.bind f) s'' b := by
  induction hp with
  | ret => exact hf
  | call answered _ ih => exact .call answered (ih hf)
  | loop _ ih =>
    refine .loop ?_
    rw [← Prog.unroll_bind]
    exact ih hf

/-- An execution of what is left of a thread is a run in which only this thread moves. -/
theorem Exec.run {ι : Type} [DecidableEq ι] {c : Config ι Op Ans σ α} {i : ι}
    (h : Exec E c.state (c.threads i) s' a) :
    ∃ t, Run E c ⟨s', Function.update c.threads i (.ret a), t⟩ := by
  generalize hs : c.state = s at h
  generalize hp : c.threads i = p at h
  induction h generalizing c with
  | @ret s a =>
    subst hs
    rw [← hp, update_eq_self]
    exact ⟨c.trace, .refl⟩
  | @call s s' s'' o k r a answered _ ih =>
    subst hs
    obtain ⟨t, hrun⟩ := ih (c := c.afterCall i o r s' k) rfl (update_self ..)
    simp only [Config.afterCall, update_idem] at hrun
    exact ⟨t, .head (.call hp answered) hrun⟩
  | @loop s s' _ _ x body k a _ ih =>
    subst hs
    obtain ⟨t, hrun⟩ := ih (c := c.afterUnroll i (.unroll x body k)) rfl
      (update_self ..)
    simp only [Config.afterUnroll, update_idem] at hrun
    exact ⟨t, .head (.unroll hp) hrun⟩

variable {c c' : Config Unit Op Ans σ α}

/-- A run of a thread that has no other next to it is an execution. -/
theorem exec_of_run (hrun : Run E c c')
    (h : c'.threads () = .ret a) : Exec E c.state (c.threads ()) c'.state a := by
  induction hrun using Relation.ReflTransGen.head_induction_on with
  | refl =>
    rw [h]
    exact .ret
  | head hstep _ ih =>
    cases hstep with
    | call thread answered =>
      rw [thread]
      exact .call answered (by simpa [Config.afterCall] using ih)
    | unroll thread =>
      rw [thread]
      exact .loop (by simpa [Config.afterUnroll] using ih)

variable {t : List (Event Unit Op Ans σ)}

/-- The steps of a thread that has no other next to it. -/
theorem step_alone : Step E ⟨s, fun _ => p, t⟩ c ↔
      (∃ o k r s', p = .call o k ∧ E o s r s' ∧ c = ⟨s', fun _ => k r, ⟨(), s, o, r⟩ :: t⟩) ∨
        ∃ (β δ : Type) (x : δ) (body : δ → Prog Op Ans (δ ⊕ β)) (k : β → Prog Op Ans α),
          p = .loop x body k ∧ c = ⟨s, fun _ => .unroll x body k, t⟩ := by
  have hcall : ∀ {o} {k : Ans o → Prog Op Ans α} {r s'},
      (⟨s, fun _ => p, t⟩ : Config Unit Op Ans σ α).afterCall () o r s' k =
        ⟨s', fun _ => k r, ⟨(), s, o, r⟩ :: t⟩ := by
    intro o k r s'
    simp only [Config.afterCall, Config.mk.injEq, true_and, and_true]
    exact funext fun _ => update_self ..
  have hunroll : ∀ {q : Prog Op Ans α},
      (⟨s, fun _ => p, t⟩ : Config Unit Op Ans σ α).afterUnroll () q = ⟨s, fun _ => q, t⟩ := by
    intro q
    simp only [Config.afterUnroll, Config.mk.injEq, true_and, and_true]
    exact funext fun _ => update_self ..
  constructor
  · rintro (@⟨i, o, k, r, s', thread, answered⟩ | @⟨i, β, δ, x, body, k, thread⟩)
    · exact .inl ⟨o, k, r, s', thread, answered, hcall⟩
    · exact .inr ⟨β, δ, x, body, k, thread, hunroll⟩
  · rintro (⟨o, k, r, s', rfl, answered, rfl⟩ | ⟨β, δ, x, body, k, rfl, rfl⟩)
    · exact hcall ▸ Step.call (i := ()) rfl answered
    · exact hunroll ▸ Step.unroll (i := ()) rfl

/-- A program that has returned makes no further step. -/
theorem run_ret (h : Run E ⟨s, fun _ => .ret a, t⟩ c) : c = ⟨s, fun _ => .ret a, t⟩ := by
  rcases Relation.ReflTransGen.cases_head h with rfl | ⟨c', hstep, -⟩
  · rfl
  · obtain ⟨_, _, _, _, hret, -⟩ | ⟨_, _, _, _, _, hret, -⟩ := step_alone.1 hstep
    · cases hret
    · cases hret

/-- A run of a sequence is a run of its first part, or goes on from where the first part has
returned. -/
theorem run_bind {c : Config Unit Op Ans σ β} (h : Run E (.start s fun _ => p.bind f) c) :
    (∃ s' q t, c = ⟨s', fun _ => q.bind f, t⟩ ∧ Run E (.start s fun _ => p) ⟨s', fun _ => q, t⟩) ∨
      ∃ s' a t, Run E (.start s fun _ => p) ⟨s', fun _ => .ret a, t⟩ ∧
        Run E ⟨s', fun _ => f a, t⟩ c := by
  induction h with
  | refl => exact .inl ⟨s, p, [], rfl, .refl⟩
  | tail _ hstep ih =>
    rcases ih with ⟨s', q, t, rfl, hrun⟩ | ⟨s', a, t, hrun, hrest⟩
    · cases q with
      | ret a => exact .inr ⟨s', a, t, hrun, .single hstep⟩
      | call o k =>
        obtain ⟨_, _, r, s'', hq, answered, rfl⟩ | ⟨_, _, x, body, k', hq, -⟩ := step_alone.1 hstep
        · cases hq
          exact .inl ⟨s'', k r, _, rfl, hrun.tail
            (step_alone.2 (.inl ⟨o, k, r, s'', rfl, answered, rfl⟩))⟩
        · cases hq
      | loop x body k =>
        obtain ⟨_, _, _, _, hq, -⟩ | ⟨_, _, _, _, _, hq, rfl⟩ := step_alone.1 hstep
        · cases hq
        · cases hq
          refine .inl ⟨s', .unroll x body k, t, ?_, hrun.tail (step_alone.2 (.inr
            ⟨_, _, x, body, k, rfl, rfl⟩))⟩
          rw [Prog.unroll_bind]
    · exact .inr ⟨s', a, t, hrun, hrest.tail hstep⟩

/-! ### Total correctness -/

variable {Q : σ → α → Prop}

theorem ends_ret : Ends E X Q s (.ret a) ↔ Q s a := by
  constructor
  · rintro (h | _ | _)
    exact h
  · exact .ret

theorem ends_call {o : Op} {k : Ans o → Prog Op Ans α} : Ends E X Q s (.call o k) ↔
      (X ∨ ∃ r s', E o s r s') ∧ ∀ r s', E o s r s' → Ends E X Q s' (k r) := by
  constructor
  · rintro (_ | ⟨answered, rest⟩ | _)
    exact ⟨answered, rest⟩
  · rintro ⟨answered, rest⟩
    exact .call answered rest

theorem ends_loop {x : δ} {body : δ → Prog Op Ans (δ ⊕ β)} {k : β → Prog Op Ans α} :
    Ends E X Q s (.loop x body k) ↔ Ends E X Q s (.unroll x body k) := by
  constructor
  · rintro (_ | _ | rest)
    exact rest
  · exact .loop

variable {Q' : σ → α → Prop}

theorem Ends.mono (h : Ends E X Q s p) (hQ : ∀ s a, Q s a → Q' s a) : Ends E X Q' s p := by
  induction h with
  | ret h => exact .ret (hQ _ _ h)
  | call answered _ ih => exact .call answered ih
  | loop _ ih => exact .loop ih

theorem Ends.imp {X' : Prop} (h : Ends E X Q s p) (hX : X → X') : Ends E X' Q s p := by
  induction h with
  | ret h => exact .ret h
  | call answered _ ih => exact .call (answered.imp hX id) ih
  | loop _ ih => exact .loop ih

variable {M : σ → α → Prop}

theorem Ends.bind {Q : σ → β → Prop} (hp : Ends E X M s p)
    (hf : ∀ s a, M s a → Ends E X Q s (f a)) : Ends E X Q s (p.bind f) := by
  induction hp with
  | ret h => exact hf _ _ h
  | call answered _ ih => exact .call answered ih
  | loop _ ih =>
    refine .loop ?_
    rw [← Prog.unroll_bind]
    exact ih

/-- Sequential composition. -/
theorem ends_bind {Q : σ → β → Prop} :
    Ends E X Q s (p.bind f) ↔ Ends E X (fun s a => Ends E X Q s (f a)) s p := by
  refine ⟨fun h => ?_, fun h => h.bind fun _ _ h => h⟩
  -- by induction on the whole, along the program `p`
  generalize hq : p.bind f = q at h
  induction h generalizing p with
  | ret h =>
    cases p with
    | ret a =>
      change f a = _ at hq
      exact .ret (hq ▸ .ret h)
    | call o k => cases hq
    | loop x body k => cases hq
  | call answered rest ih =>
    cases p with
    | ret a =>
      change f a = _ at hq
      exact .ret (hq ▸ .call answered rest)
    | call o k =>
      cases hq
      exact .call answered fun r s' h => ih r s' h rfl
    | loop x body k => cases hq
  | loop rest ih =>
    cases p with
    | ret a =>
      change f a = _ at hq
      exact .ret (hq ▸ .loop rest)
    | call o k => cases hq
    | loop x body k =>
      cases hq
      exact .loop (ih (Prog.unroll_bind _ _ k f))

theorem ends_ite {c : Prop} [Decidable c] {q : Prog Op Ans α} :
    Ends E X Q s (if c then p else q) ↔ (c → Ends E X Q s p) ∧ (¬ c → Ends E X Q s q) := by
  by_cases hc : c <;> simp [hc]

/-- Every execution of a program that ends with `Q` leads to `Q`. -/
theorem Ends.exec (h : Ends E X Q s p) (hexec : Exec E s p s' a) : Q s' a := by
  induction hexec with
  | ret => exact ends_ret.1 h
  | call answered _ ih => exact ih ((ends_call.1 h).2 _ _ answered)
  | loop _ ih => exact ih (ends_loop.1 h)

/-- A program that ends and never crashes has an execution. -/
theorem Ends.can (h : Ends E False Q s p) : Can E Q s p := by
  induction h with
  | @ret s a h => exact ⟨s, a, .ret, h⟩
  | call answered _ ih =>
    obtain ⟨r, s', hr⟩ := answered.resolve_left id
    obtain ⟨s'', a, hexec, hQ⟩ := ih r s' hr
    exact ⟨s'', a, .call hr hexec, hQ⟩
  | loop _ ih =>
    obtain ⟨s', a, hexec, hQ⟩ := ih
    exact ⟨s', a, .loop hexec, hQ⟩

/-! ### Programs that may fail -/

theorem ends_pure {Q : σ → Except ε α → Prop} :
    Ends E X Q s (pure a : ExceptT ε (Prog Op Ans) α).run ↔ Q s (.ok a) := ends_ret

theorem ends_throw {Q : σ → Except ε α → Prop} {e : ε} :
    Ends E X Q s (throw e : ExceptT ε (Prog Op Ans) α).run ↔ Q s (.error e) := ends_ret

theorem ends_run_ite {Q : σ → Except ε α → Prop} {c : Prop} [Decidable c]
    {p q : ExceptT ε (Prog Op Ans) α} : Ends E X Q s (if c then p else q).run ↔
      (c → Ends E X Q s p.run) ∧ (¬ c → Ends E X Q s q.run) := by
  by_cases hc : c <;> simp [hc]

/-- Sequential composition of programs that may fail: an error ends the composition, a result is
handed on. -/
theorem ends_seq {Q : σ → Except ε β → Prop} {p : ExceptT ε (Prog Op Ans) α}
    {f : α → ExceptT ε (Prog Op Ans) β} :
    Ends E X Q s (p >>= f).run ↔ Ends E X (fun s r => match r with
      | .ok a => Ends E X Q s (f a).run
      | .error e => Q s (.error e)) s p.run := by
  have hrun : (p >>= f).run = p.run.bind (ExceptT.bindCont f) := rfl
  rw [hrun, ends_bind]
  constructor
  · refine fun h => h.mono fun s r hr => ?_
    cases r with
    | ok a => exact hr
    | error e => exact (ends_ret (Q := Q)).1 hr
  · refine fun h => h.mono fun s r hr => ?_
    cases r with
    | ok a => exact hr
    | error e => exact (ends_ret (Q := Q)).2 hr

/-- Iteration over a list, with an invariant that sees what is left of the list. -/
theorem Ends.forM {Q : σ → Except ε PUnit → Prop} {f : β → ExceptT ε (Prog Op Ans) PUnit}
    (I : List β → σ → Prop) (xs : List β) (hs : I xs s)
    (hstep : ∀ x xs s, I (x :: xs) s → Ends E X (fun s r => match r with
      | .ok _ => I xs s
      | .error e => Q s (.error e)) s (f x).run)
    (hdone : ∀ s, I [] s → Q s (.ok ⟨⟩)) : Ends E X Q s (xs.forM f).run := by
  induction xs generalizing s with
  | nil => exact ends_ret.2 (hdone s hs)
  | cons x xs ih =>
    refine ends_seq.2 ((hstep x xs s hs).mono fun s r hr => ?_)
    cases r with
    | ok _ => exact ih hr
    | error e => exact hr

/-! ### Possible results -/

theorem can_ret : Can E Q s (.ret a) ↔ Q s a := by
  constructor
  · rintro ⟨_, _, _ | _ | _, h⟩
    exact h
  · exact fun h => ⟨s, a, .ret, h⟩

theorem Can.mono (h : Can E Q s p) (hQ : ∀ s a, Q s a → Q' s a) : Can E Q' s p := by
  obtain ⟨s', a, hexec, hQ'⟩ := h
  exact ⟨s', a, hexec, hQ s' a hQ'⟩

theorem Can.call {o : Op} {k : Ans o → Prog Op Ans α} {r : Ans o}
    (answered : E o s r s') (h : Can E Q s' (k r)) : Can E Q s (.call o k) := by
  obtain ⟨s'', a, hexec, hQ⟩ := h
  exact ⟨s'', a, .call answered hexec, hQ⟩

theorem Can.bind {Q : σ → β → Prop} (hp : Can E M s p) (hf : ∀ s a, M s a → Can E Q s (f a)) :
    Can E Q s (p.bind f) := by
  obtain ⟨s', a, hexec, hM⟩ := hp
  obtain ⟨s'', b, hexec', hQ⟩ := hf s' a hM
  exact ⟨s'', b, hexec.bind hexec', hQ⟩

/-- Sequential composition of programs that may fail. -/
theorem Can.seq {M : σ → Except ε α → Prop} {Q : σ → Except ε β → Prop}
    {p : ExceptT ε (Prog Op Ans) α} {f : α → ExceptT ε (Prog Op Ans) β} (hp : Can E M s p.run)
    (hok : ∀ s a, M s (.ok a) → Can E Q s (f a).run)
    (herror : ∀ s e, M s (.error e) → Q s (.error e)) : Can E Q s (p >>= f).run := by
  refine Can.bind (p := p.run) (f := ExceptT.bindCont f) hp fun s r hr => ?_
  cases r with
  | ok a => exact hok s a hr
  | error e => exact can_ret.2 (herror s e hr)

end Concurrent
