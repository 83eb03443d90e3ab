import Mathlib.Logic.Relation
import Mathlib.Data.List.Basic

/-!
# Keeping a job alive

A message that is not settled in time is delivered again. While a client works on a job it may ask
for more time, with `InProgress`. `ClientProcessFn` starts a goroutine for this, the keeper, which
sleeps for half of the time that the message has to be settled in, and reports once that the job is
in progress. It would stop at a signal, but the channel of the signal is never closed.

The keeper and the handler of the message are run against a clock. Whoever has something to do does
it before the clock moves on; at one moment the two may act in any order. What the server sees of
the message is written down in a log, with the time.

* `JobTiming`: the time that the message has to be settled in, and the times that the handler needs:
  before the service function, for it, and after it.
* `keeperStep`, `handlerStep`, `JobStep`: the system.
* `JobClock.Consistent`, `consistent_of_reach`: what the log may be, in every state.
* `KeptAlive`: the job is never delivered again while the function runs, and nothing is reported for
  a settled message.
* `keptAlive_iff`: this is so **if and only if** the function returns within one and a half times
  the time, and the message is settled only after the report, unless the NATS client refuses to
  report on a settled message.
-/

namespace SharWorkflow

/-- How long everything takes, in nanoseconds. -/
structure JobTiming where
  ackTimeout : Nat
  /-- until the service function is called -/
  preparation : Nat := 0
  /-- of the service function -/
  duration : Nat
  /-- from the return of the function until the message is settled -/
  settlement : Nat := 0
  /-- the NATS client refuses to report on a settled message -/
  refuses : Bool

/-- What happens to a message, as the server sees it. -/
inductive Sighting
  | delivered
  | inProgress
  | settled
  deriving DecidableEq

/-- The goroutine that reports: it sleeps, then takes the mutex, looks for the signal again, and
reports. -/
inductive Keeper
  | sleeping
  | woken
  | locked
  | checked
  | stopped
  deriving DecidableEq

/-- What the handler is doing. -/
inductive JobPhase
  | preparing
  | running
  | settling
  | settled
  deriving DecidableEq

/-- The state of a job. The log has the newest sighting first. -/
structure JobClock where
  now : Nat := 0
  keeper : Keeper := .sleeping
  phase : JobPhase := .preparing
  /-- `waitCancelSig` is closed, which nobody does -/
  signalled : Bool := false
  /-- the context of the service function is cancelled -/
  cancelled : Bool := false
  log : List (Nat × Sighting) := [(0, .delivered)]

namespace JobTiming

variable (j : JobTiming)

/-- When the keeper reports. -/
def reportsAt : Nat := j.ackTimeout / 2

/-- When the service function returns. -/
def returnsAt : Nat := j.preparation + j.duration

/-- When the message is settled. -/
def settlesAt : Nat := j.preparation + j.duration + j.settlement

end JobTiming

variable (j : JobTiming)

/-- `InProgress`. After an error the context is cancelled. -/
def JobClock.report (s : JobClock) : JobClock :=
  if j.refuses ∧ s.phase = .settled then { s with keeper := .stopped, cancelled := true }
  else { s with keeper := .stopped, log := (s.now, .inProgress) :: s.log }

/-- What the keeper does next, unless it waits or is done. -/
def keeperStep (s : JobClock) : Option JobClock :=
  match s.keeper with
  | .sleeping =>
    if s.signalled then some { s with keeper := .stopped, cancelled := true }
    else if j.reportsAt ≤ s.now then some { s with keeper := .woken }
    else none
  | .woken => some { s with keeper := .locked }
  | .locked =>
    if s.signalled then some { s with keeper := .stopped, cancelled := true }
    else some { s with keeper := .checked }
  | .checked => some (s.report j)
  | .stopped => none

/-- What the handler does next, unless it waits or is done. -/
def handlerStep (s : JobClock) : Option JobClock :=
  match s.phase with
  | .preparing => if j.preparation ≤ s.now then some { s with phase := .running } else none
  | .running => if j.returnsAt ≤ s.now then some { s with phase := .settling } else none
  | .settling =>
    if j.settlesAt ≤ s.now then
      some { s with phase := .settled, log := (s.now, .settled) :: s.log }
    else none
  | .settled => none

/-- One step: of the keeper, of the handler, or of the clock if both wait. -/
inductive JobStep : JobClock → JobClock → Prop
  | keeper {s s' : JobClock} (h : keeperStep j s = some s') : JobStep s s'
  | handler {s s' : JobClock} (h : handlerStep j s = some s') : JobStep s s'
  | clock {s : JobClock} (hkeeper : keeperStep j s = none) (hhandler : handlerStep j s = none) :
      JobStep s { s with now := s.now + 1 }

/-- The states that a job can be in, from its delivery on. -/
def Reach (s : JobClock) : Prop := Relation.ReflTransGen (JobStep j) {} s

/-- The time that the message has to be settled in starts again. -/
def Sighting.renews : Sighting → Bool
  | .delivered => true
  | .inProgress => true
  | .settled => false

/-- **The job is kept alive.** -/
structure KeptAlive : Prop where
  /-- While the function runs, the last delivery or extension is recent enough. -/
  alive : ∀ s, Reach j s → s.phase = .running →
    ∃ e ∈ s.log, e.2.renews = true ∧ s.now ≤ e.1 + j.ackTimeout
  /-- Nothing is reported once the message is settled. -/
  silent : ∀ s, Reach j s →
    s.log.Pairwise fun later earlier => earlier.2 = .settled → later.2 ≠ .inProgress

/-! ### What the log may be -/

/-- The log of a message, by what the keeper and the handler have done. -/
def JobClock.LogFits (s : JobClock) : Prop :=
  if s.keeper = .stopped then
    if s.phase = .settled then
      s.log = [(j.settlesAt, .settled), (j.reportsAt, .inProgress), (0, .delivered)] ∨
        j.settlesAt ≤ j.reportsAt ∧
          s.log = if j.refuses then [(j.settlesAt, .settled), (0, .delivered)]
            else [(j.reportsAt, .inProgress), (j.settlesAt, .settled), (0, .delivered)]
    else s.log = [(j.reportsAt, .inProgress), (0, .delivered)]
  else
    if s.phase = .settled then s.log = [(j.settlesAt, .settled), (0, .delivered)]
    else s.log = [(0, .delivered)]

/-- The handler is where it should be at this time. -/
def JobClock.OnTime (s : JobClock) : Prop :=
  match s.phase with
  | .preparing => s.now ≤ j.preparation
  | .running => s.now ≤ j.returnsAt
  | .settling => j.returnsAt ≤ s.now ∧ s.now ≤ j.settlesAt
  | .settled => j.settlesAt ≤ s.now

/-- The keeper is where it should be at this time. -/
def JobClock.KeeperOnTime (s : JobClock) : Prop :=
  match s.keeper with
  | .sleeping => s.now ≤ j.reportsAt
  | .stopped => j.reportsAt ≤ s.now
  | _ => s.now = j.reportsAt

/-- A state that fits its time. -/
structure JobClock.Consistent (s : JobClock) : Prop where
  signalled : s.signalled = false
  keeper : s.KeeperOnTime j
  handler : s.OnTime j
  log : s.LogFits j

variable {j} {s s' : JobClock}

/-- A report is logged at its time, before or after the message is settled. -/
theorem JobClock.Consistent.report (h : s.Consistent j) (hkeeper : s.keeper = .checked) :
    (s.report j).Consistent j := by
  obtain ⟨hsignalled, hnow, hhandler, hlog⟩ := h
  rw [JobClock.KeeperOnTime, hkeeper] at hnow
  have hlog' : if s.phase = .settled then s.log = [(j.settlesAt, .settled), (0, .delivered)]
      else s.log = [(0, .delivered)] := by
    simpa [JobClock.LogFits, hkeeper] using hlog
  have hsettled : s.phase = .settled → j.settlesAt ≤ j.reportsAt := by
    intro hphase
    simp only [JobClock.OnTime, hphase] at hhandler
    omega
  unfold JobClock.report
  split
  · rename_i hrefused
    refine ⟨hsignalled, Nat.le_of_eq hnow.symm, hhandler, ?_⟩
    rw [if_pos hrefused.2] at hlog'
    simpa [JobClock.LogFits, hrefused.2, hrefused.1, hlog'] using hsettled hrefused.2
  · rename_i hreports
    refine ⟨hsignalled, Nat.le_of_eq hnow.symm, hhandler, ?_⟩
    by_cases hphase : s.phase = .settled
    · rw [if_pos hphase] at hlog'
      have hrefuses : j.refuses = false := by simpa [hphase] using hreports
      simp [JobClock.LogFits, hphase, hlog', hnow, hrefuses, hsettled hphase]
    · rw [if_neg hphase] at hlog'
      simp [JobClock.LogFits, hphase, hlog', hnow]

theorem JobClock.Consistent.keeps (h : s.Consistent j)
    (hstep : keeperStep j s = some s') : s'.Consistent j := by
  unfold keeperStep at hstep
  rw [h.signalled] at hstep
  obtain ⟨-, hnow, hhandler, hlog⟩ := id h
  cases hkeeper : s.keeper with
  | sleeping =>
    simp only [hkeeper, Bool.false_eq_true, if_false, Option.ite_none_right_eq_some,
      Option.some.injEq] at hstep
    obtain ⟨hdue, rfl⟩ := hstep
    rw [JobClock.KeeperOnTime, hkeeper] at hnow
    refine ⟨rfl, ?_, hhandler, ?_⟩
    · exact Nat.le_antisymm hnow hdue
    · simpa [JobClock.LogFits, hkeeper] using hlog
  | checked =>
    simp only [hkeeper, Option.some.injEq] at hstep
    subst hstep
    exact h.report hkeeper
  | stopped =>
    rw [hkeeper] at hstep
    cases hstep
  | _ =>
    simp only [hkeeper, Bool.false_eq_true, if_false, Option.some.injEq] at hstep
    subst hstep
    rw [JobClock.KeeperOnTime, hkeeper] at hnow
    refine ⟨rfl, hnow, hhandler, ?_⟩
    simpa [JobClock.LogFits, hkeeper] using hlog

open JobTiming

theorem JobClock.Consistent.handles (h : s.Consistent j)
    (hstep : handlerStep j s = some s') : s'.Consistent j := by
  unfold handlerStep at hstep
  obtain ⟨hsignalled, hkeeper, hnow, hlog⟩ := h
  unfold JobClock.OnTime at hnow
  cases hphase : s.phase with
  | settling =>
    simp only [hphase, Option.ite_none_right_eq_some, Option.some.injEq] at hstep hnow
    obtain ⟨hdue, rfl⟩ := hstep
    refine ⟨hsignalled, hkeeper, hdue, ?_⟩
    have heq : s.now = j.settlesAt := Nat.le_antisymm hnow.2 hdue
    by_cases hstopped : s.keeper = .stopped
    · simp only [JobClock.LogFits, hphase, hstopped, if_true, reduceCtorEq, if_false] at hlog ⊢
      exact .inl (by rw [hlog, heq])
    · simp only [JobClock.LogFits, hphase, hstopped, if_true, reduceCtorEq, if_false] at hlog ⊢
      rw [hlog, heq]
  | settled =>
    rw [hphase] at hstep
    cases hstep
  | _ =>
    simp only [hphase, Option.ite_none_right_eq_some, Option.some.injEq] at hstep hnow
    obtain ⟨hdue, rfl⟩ := hstep
    refine ⟨hsignalled, hkeeper, ?_, ?_⟩
    · simp only [JobClock.OnTime, settlesAt, returnsAt] at hnow hdue ⊢
      omega
    · simpa [JobClock.LogFits, hphase] using hlog

/-- A keeper that has nothing to do sleeps, or has stopped. -/
theorem keeper_of_keeperStep_eq_none (h : keeperStep j s = none) :
    s.keeper = .sleeping ∧ s.now < j.reportsAt ∨ s.keeper = .stopped := by
  unfold keeperStep at h
  split at h
  · rename_i hkeeper
    split at h
    · cases h
    · split at h
      · cases h
      · exact .inl ⟨hkeeper, Nat.not_le.1 ‹_›⟩
  · cases h
  · split at h <;> cases h
  · cases h
  · exact .inr ‹_›

/-- The clock moves on only if nobody has anything to do, so nobody gets late. -/
theorem JobClock.Consistent.clock (h : s.Consistent j)
    (hkeeper : keeperStep j s = none) (hhandler : handlerStep j s = none) :
    ({ s with now := s.now + 1 } : JobClock).Consistent j := by
  refine ⟨h.signalled, ?_, ?_, h.log⟩
  · have hnow := h.keeper
    unfold JobClock.KeeperOnTime at hnow ⊢
    rcases keeper_of_keeperStep_eq_none hkeeper with ⟨hsleeping, hearly⟩ | hstopped
    · simp only [hsleeping]
      omega
    · simp only [hstopped] at hnow ⊢
      omega
  · have hnow := h.handler
    unfold JobClock.OnTime at hnow ⊢
    unfold handlerStep at hhandler
    cases hcase : s.phase with
    | settled =>
      simp only [hcase] at hnow ⊢
      omega
    | _ =>
      simp only [hcase, ite_eq_right_iff, reduceCtorEq, imp_false] at hhandler hnow ⊢
      omega

theorem JobClock.Consistent.step (h : s.Consistent j) (hstep : JobStep j s s') :
    s'.Consistent j := by
  cases hstep with
  | keeper hkeeper => exact h.keeps hkeeper
  | handler hhandler => exact h.handles hhandler
  | clock hkeeper hhandler => exact h.clock hkeeper hhandler

/-- **Every state** that a job can be in fits its time. -/
theorem consistent_of_reach (h : Reach j s) : s.Consistent j := by
  induction h with
  | refl => exact ⟨rfl, Nat.zero_le _, Nat.zero_le _, rfl⟩
  | tail _ hstep ih => exact ih.step hstep

/-! ### States that are reached -/

theorem Reach.keeper (h : Reach j s) (hstep : keeperStep j s = some s') : Reach j s' :=
  h.tail (.keeper hstep)

theorem Reach.handler (h : Reach j s) (hstep : handlerStep j s = some s') : Reach j s' :=
  h.tail (.handler hstep)

/-- What the handler does depends on the time and on its phase only. -/
theorem handlerStep_eq_none_congr (hnow : s'.now = s.now) (hphase : s'.phase = s.phase)
    (h : handlerStep j s = none) : handlerStep j s' = none := by
  unfold handlerStep at h ⊢
  rw [hphase, hnow]
  cases hcase : s.phase <;> simp_all

/-- A keeper that is due reports at once. -/
theorem Reach.reports (h : Reach j s) (hkeeper : s.keeper = .sleeping)
    (hdue : j.reportsAt ≤ s.now) :
    Reach j (({ s with keeper := .checked } : JobClock).report j) := by
  have hsignalled := (consistent_of_reach h).signalled
  have hwoken : Reach j { s with keeper := .woken } :=
    h.keeper (by simp [keeperStep, hkeeper, hsignalled, hdue])
  have hlocked : Reach j { s with keeper := .locked } := hwoken.keeper rfl
  have hchecked : Reach j { s with keeper := .checked } :=
    hlocked.keeper (by simp [keeperStep, hsignalled])
  exact hchecked.keeper rfl

/-- A report stops the keeper, and changes only the log besides. -/
theorem report_spec (s : JobClock) :
    (s.report j).now = s.now ∧ (s.report j).phase = s.phase ∧ (s.report j).keeper = .stopped := by
  unfold JobClock.report
  split <;> exact ⟨rfl, rfl, rfl⟩

/-- The keeper is not ahead of its time: before the time of its report it sleeps, and after it it
has stopped. -/
def JobClock.Prompt (j : JobTiming) (s : JobClock) : Prop :=
  if s.now ≤ j.reportsAt then s.keeper = .sleeping else s.keeper = .stopped

/-- **The clock moves on** while the handler waits, and the handler stays where it is. -/
theorem Reach.passes (h : Reach j s) (hprompt : s.Prompt j) (hwaits : handlerStep j s = none) :
    ∃ s', Reach j s' ∧ s'.Prompt j ∧ s'.now = s.now + 1 ∧ s'.phase = s.phase := by
  unfold JobClock.Prompt at hprompt
  rcases Nat.lt_trichotomy s.now j.reportsAt with hearly | hdue | hlate
  · rw [if_pos (Nat.le_of_lt hearly)] at hprompt
    have hsleeps : keeperStep j s = none := by
      simp [keeperStep, hprompt, (consistent_of_reach h).signalled, hearly]
    exact ⟨_, h.tail (.clock hsleeps hwaits), (if_pos hearly).mpr hprompt, rfl, rfl⟩
  · rw [if_pos (Nat.le_of_eq hdue)] at hprompt
    have hreported := h.reports hprompt (Nat.le_of_eq hdue.symm)
    set r := ({ s with keeper := .checked } : JobClock).report j with hr
    obtain ⟨hnow, hphase, hstopped⟩ : r.now = s.now ∧ r.phase = s.phase ∧ r.keeper = .stopped :=
      report_spec _
    have hdone : keeperStep j r = none := by rw [keeperStep, hstopped]
    refine ⟨_, hreported.tail (.clock hdone (handlerStep_eq_none_congr hnow hphase hwaits)), ?_,
      congrArg (· + 1) hnow, hphase⟩
    rw [JobClock.Prompt, if_neg (by simp only [hnow]; omega)]
    exact hstopped
  · rw [if_neg (Nat.not_le.2 hlate)] at hprompt
    have hdone : keeperStep j s = none := by rw [keeperStep, hprompt]
    refine ⟨_, h.tail (.clock hdone hwaits), ?_, rfl, rfl⟩
    rw [JobClock.Prompt, if_neg (by simp only; omega)]
    exact hprompt

/-- The clock moves on up to the time of the next step of the handler. -/
theorem Reach.passes_to (h : Reach j s) (hprompt : s.Prompt j) {n : Nat} (hn : s.now ≤ n)
    (hwaits : ∀ s' : JobClock, s'.phase = s.phase → s'.now < n → handlerStep j s' = none) :
    ∃ s', Reach j s' ∧ s'.Prompt j ∧ s'.now = n ∧ s'.phase = s.phase := by
  induction hn with
  | refl => exact ⟨s, h, hprompt, rfl, rfl⟩
  | step hn ih =>
    obtain ⟨s₁, h₁, hprompt₁, hnow₁, hphase₁⟩ :=
      ih fun s' hphase hlt => hwaits s' hphase (Nat.lt_succ_of_lt hlt)
    obtain ⟨s₂, h₂, hprompt₂, hnow₂, hphase₂⟩ :=
      h₁.passes hprompt₁ (hwaits s₁ hphase₁ (by omega))
    exact ⟨s₂, h₂, hprompt₂, by rw [hnow₂, hnow₁], hphase₂.trans hphase₁⟩

/-- The function runs until the time of its return. -/
theorem exists_running (j : JobTiming) :
    ∃ s, Reach j s ∧ s.Prompt j ∧ s.now = j.returnsAt ∧ s.phase = .running := by
  obtain ⟨s, h, hprompt, hnow, hphase⟩ := Reach.passes_to (j := j) (s := {}) .refl
    (if_pos (Nat.zero_le _) |>.mpr rfl) (Nat.zero_le j.preparation) fun s hphase hlt => by
      simp [handlerStep, hphase, hlt]
  have hstarts : handlerStep j s = some { s with phase := .running } := by
    simp [handlerStep, hphase, hnow]
  refine (h.handler hstarts).passes_to hprompt ?_ fun s hphase hlt => ?_
  · simp only [hnow, returnsAt]
    omega
  · simp [handlerStep, hphase, hlt]

/-- The message is settled at its time. -/
theorem exists_settled (j : JobTiming) :
    ∃ s, Reach j s ∧ s.Prompt j ∧ s.now = j.settlesAt ∧ s.phase = .settled := by
  obtain ⟨s, h, hprompt, hnow, hphase⟩ := exists_running j
  have hreturns : handlerStep j s = some { s with phase := .settling } := by
    simp [handlerStep, hphase, hnow]
  obtain ⟨s', h', hprompt', hnow', hphase'⟩ := (h.handler hreturns).passes_to hprompt
    (n := j.settlesAt) (by simp only [hnow, returnsAt, settlesAt]; omega)
    fun s hphase hlt => by simp [handlerStep, hphase, hlt]
  have hsettles : handlerStep j s' =
      some { s' with phase := .settled, log := (s'.now, .settled) :: s'.log } := by
    simp [handlerStep, hphase', hnow']
  exact ⟨_, h'.handler hsettles, hprompt', hnow', rfl⟩

/-! ### Jobs that are kept alive -/

/-- There is nothing in the log but the delivery, the report and the settlement. -/
theorem JobClock.Consistent.mem_log (h : s.Consistent j) {e : Nat × Sighting} (he : e ∈ s.log) :
    e = (0, .delivered) ∨ e = (j.reportsAt, .inProgress) ∨ e = (j.settlesAt, .settled) := by
  have hlog := h.log
  unfold JobClock.LogFits at hlog
  split_ifs at hlog
  · rcases hlog with hlog | ⟨-, hlog⟩ <;> rw [hlog] at he <;> simp at he <;> tauto
  · rcases hlog with hlog | ⟨-, hlog⟩ <;> rw [hlog] at he <;> simp at he <;> tauto
  all_goals
    rw [hlog] at he
    simp at he
    tauto

/-- Whatever gives the client time happens by the time of the report. -/
theorem JobClock.Consistent.le_reportsAt (h : s.Consistent j) {e : Nat × Sighting} (he : e ∈ s.log)
    (hrenews : e.2.renews = true) : e.1 ≤ j.reportsAt := by
  rcases h.mem_log he with rfl | rfl | rfl
  · exact Nat.zero_le _
  · exact Nat.le_refl _
  · cases hrenews

/-- Until the keeper has stopped, the time of its report is not over. -/
theorem JobClock.Consistent.now_le (h : s.Consistent j) (hkeeper : s.keeper ≠ .stopped) :
    s.now ≤ j.reportsAt := by
  have hnow := h.keeper
  unfold JobClock.KeeperOnTime at hnow
  split at hnow
  · exact hnow
  · exact absurd ‹_› hkeeper
  · exact Nat.le_of_eq hnow

/-- While the function runs, the message is within its time, if the function returns in time. -/
theorem JobClock.Consistent.alive (h : s.Consistent j) (hphase : s.phase = .running)
    (hreturns : j.returnsAt ≤ j.ackTimeout + j.reportsAt) :
    ∃ e ∈ s.log, e.2.renews = true ∧ s.now ≤ e.1 + j.ackTimeout := by
  have hlog := h.log
  have hnow := h.handler
  simp only [JobClock.LogFits, hphase, reduceCtorEq, if_false] at hlog
  simp only [JobClock.OnTime, hphase] at hnow
  split at hlog
  · refine ⟨(j.reportsAt, .inProgress), by simp [hlog], rfl, ?_⟩
    omega
  · rename_i hkeeper
    have hearly := h.now_le hkeeper
    have hhalf : j.reportsAt ≤ j.ackTimeout := Nat.div_le_self j.ackTimeout 2
    refine ⟨(0, .delivered), by simp [hlog], rfl, ?_⟩
    omega

/-- Nothing is reported after the settlement, if there is a report before it or none at all. -/
theorem JobClock.Consistent.silent (h : s.Consistent j)
    (horder : j.refuses = true ∨ j.reportsAt < j.settlesAt) :
    s.log.Pairwise fun later earlier => earlier.2 = .settled → later.2 ≠ .inProgress := by
  have hlog := h.log
  unfold JobClock.LogFits at hlog
  split at hlog
  · split at hlog
    · rcases hlog with hlog | ⟨hlate, hlog⟩
      · simp [hlog]
      · have hrefuses : j.refuses = true := horder.resolve_right (Nat.not_lt.2 hlate)
        rw [if_pos hrefuses] at hlog
        simp [hlog]
    · simp [hlog]
  · split at hlog <;> simp [hlog]

/-- A message that is settled before the report is reported on, unless the NATS client refuses. -/
theorem exists_late_report (hrefuses : j.refuses = false) (hearly : j.settlesAt ≤ j.reportsAt) :
    ∃ s, Reach j s ∧
      s.log = [(j.reportsAt, .inProgress), (j.settlesAt, .settled), (0, .delivered)] := by
  obtain ⟨s₁, h₁, hprompt₁, hnow₁, hphase₁⟩ := exists_settled j
  obtain ⟨s, h, hprompt, hnow, hphase⟩ := h₁.passes_to hprompt₁ (hnow₁ ▸ hearly)
    fun s hphase _ => by simp [handlerStep, hphase, hphase₁]
  have hsettled : s.phase = .settled := hphase.trans hphase₁
  have hkeeper : s.keeper = .sleeping := (if_pos (Nat.le_of_eq hnow)).mp hprompt
  have hlog : s.log = [(j.settlesAt, .settled), (0, .delivered)] := by
    simpa [JobClock.LogFits, hkeeper, hsettled] using (consistent_of_reach h).log
  refine ⟨_, h.reports hkeeper (Nat.le_of_eq hnow.symm), ?_⟩
  simp [JobClock.report, hrefuses, hlog, hnow]

/-- **A job is kept alive** if and only if the function returns by the end of the time that the only
report gives it, and the report is not made too late. -/
theorem keptAlive_iff (j : JobTiming) : KeptAlive j ↔ j.returnsAt ≤ j.ackTimeout + j.reportsAt ∧
      (j.refuses = true ∨ j.reportsAt < j.settlesAt) := by
  constructor
  · rintro ⟨halive, hsilent⟩
    constructor
    · obtain ⟨s, h, -, hnow, hphase⟩ := exists_running j
      obtain ⟨e, he, hrenews, hle⟩ := halive s h hphase
      have htime := (consistent_of_reach h).le_reportsAt he hrenews
      omega
    · by_contra hnot
      rw [not_or, Bool.not_eq_true, Nat.not_lt] at hnot
      obtain ⟨s, h, hlog⟩ := exists_late_report hnot.1 hnot.2
      have hpairwise := hsilent s h
      simp [hlog] at hpairwise
  · rintro ⟨hreturns, horder⟩
    exact ⟨fun s h hphase => (consistent_of_reach h).alive hphase hreturns,
      fun s h => (consistent_of_reach h).silent horder⟩

/-! ### A long job -/

/-- A job of a minute, with the timeout of thirty seconds that the client configures. -/
def minuteJob : JobTiming where
  ackTimeout := 30000000000
  duration := 60000000000
  refuses := true

/-- **A long job is delivered again** while it runs: at the end of its minute the only report was
made 45 seconds ago. -/
theorem minuteJob_not_alive : ∃ s, Reach minuteJob s ∧ s.phase = .running ∧
    ∀ e ∈ s.log, e.2.renews = true → e.1 + minuteJob.ackTimeout < s.now := by
  obtain ⟨s, h, -, hnow, hphase⟩ := exists_running minuteJob
  refine ⟨s, h, hphase, fun e he hrenews => ?_⟩
  have htime := (consistent_of_reach h).le_reportsAt he hrenews
  have hreports : minuteJob.reportsAt = 15000000000 := rfl
  have hreturns : minuteJob.returnsAt = 60000000000 := rfl
  have htimeout : minuteJob.ackTimeout = 30000000000 := rfl
  omega

end SharWorkflow
