import SharWorkflow.Arith.Wrapping
import SharWorkflow.Timers.Start

/-!
# The schedule of a timed start

A message of a timed start is delivered; it is acknowledged or handed back, and the messages that it
sends are delivered in turn (`Schedule`). A message that was handed back is not delivered before the
requested delay is over.

A timer with an interval fires no more often than it should, and never too soon, as long as the
clock does not go back. But when a message comes too early, the delay that is asked for is one
interval too long (`interval_schedule_iff`). A timer with a fixed date sends the next message of
itself like any other, so it fires again and again; and before the date its message is acknowledged,
so that it never fires (`fixed_schedule_iff`).
-/

namespace SharWorkflow

open Concurrent Wrapping List World WorkflowTimerDefinition

variable (definition : WorkflowTimerDefinition)

namespace TimedStart

variable {T : TimedStart}

/-! ### Runs -/

/-- The messages that are to be delivered after a delivery, each with the time before which it is
not: the message itself, if it is handed back, and those that were sent. -/
def Delivery.pending (δ : Delivery) : List (Option Int × WorkflowState) :=
  (match δ.answer.settle with
    | .acked => []
    | .nakWithDelay delay => [(some (δ.time.toInt + delay.toInt), δ.message)]
    | .nak | .kept => [(none, δ.message)]) ++ δ.timers.map fun m => (none, m)

/-- **The runs of a timed start**: the deliveries so far, the last one first, and the messages that
are to be delivered. The first message is the one that was published when the workflow was
stored. -/
inductive Schedule (T : TimedStart) : List Delivery → List (Option Int × WorkflowState) → Prop
  | start (t t' : Int) :
      Schedule T [] [(none, (timedStart T.wf T.id T.pr T.el t).stamped t')]
  | deliver {history : List Delivery} {before after : List (Option Int × WorkflowState)}
      {earliest : Option Int} {δ : Delivery}
      (run : Schedule T history (before ++ (earliest, δ.message) :: after))
      (waited : ∀ t ∈ earliest, t ≤ δ.time.toInt)
      (delivers : T.Delivers δ) :
      Schedule T (δ :: history) (before ++ after ++ δ.pending)

theorem message_timedStart (t t' : Int) :
    T.Message 0 0 ((timedStart T.wf T.id T.pr T.el t).stamped t') := ⟨rfl, rfl, rfl⟩

variable {lastFired count : Int64} {δ : Delivery}

/-- What a delivery leaves to be delivered are messages of the timer. -/
theorem Delivers.pending_message (h : T.Delivers δ) (hm : T.Message lastFired count δ.message) :
    ∀ p ∈ δ.pending, ∃ lastFired count, T.Message lastFired count p.2 := by
  obtain ⟨-, hfired, hother⟩ := h.spec hm
  intro p hp
  rcases mem_append.1 hp with hp | hp
  · have hmessage : p.2 = δ.message := by
      split at hp
      · cases hp
      all_goals rw [mem_singleton.1 hp]
    exact ⟨lastFired, count, hmessage ▸ hm⟩
  · obtain ⟨m, hmem, rfl⟩ := mem_map.1 hp
    by_cases hfires : T.definition.outcome lastFired count δ.time = .fired
    · obtain ⟨-, next, htimers, hnext⟩ := hfired hfires
      rw [htimers, mem_singleton] at hmem
      exact ⟨_, _, hmem ▸ hnext⟩
    · rw [(hother hfires).2] at hmem
      cases hmem

variable {history : List Delivery}

/-- All messages are messages of the timer. -/
theorem Schedule.messages {pending : List (Option Int × WorkflowState)}
    (h : T.Schedule history pending) :
    (∀ p ∈ pending, ∃ lastFired count, T.Message lastFired count p.2) ∧
      ∀ δ ∈ history, T.Delivers δ ∧ ∃ lastFired count, T.Message lastFired count δ.message := by
  induction h with
  | start t t' =>
    refine ⟨fun p hp => ?_, fun δ hδ => absurd hδ not_mem_nil⟩
    rw [mem_singleton.1 hp]
    exact ⟨0, 0, message_timedStart t t'⟩
  | @deliver history before after earliest δ run waited delivers ih =>
    obtain ⟨lastFired, count, hm⟩ :=
      ih.1 (earliest, δ.message) (mem_append_right _ mem_cons_self)
    refine ⟨fun p hp => ?_, fun δ' hδ' => ?_⟩
    · rcases mem_append.1 hp with hp | hp
      · refine ih.1 p ?_
        rcases mem_append.1 hp with hp | hp
        · exact mem_append_left _ hp
        · exact mem_append_right _ (mem_cons_of_mem _ hp)
      · exact delivers.pending_message hm p hp
    · rcases mem_cons.1 hδ' with rfl | hδ'
      · exact ⟨delivers, lastFired, count, hm⟩
      · exact ih.2 δ' hδ'

/-! ### A process that is started by a timer -/

/-- The start event of the process. -/
def dailyStart : Element where
  id := "begin"
  type := .timedStartEvent
  outbound := some { target := [{ id := "flow", target := "done" }] }
  timer := some definition

def dailyProcess : Process where
  id := "process"
  elements := [dailyStart definition, { id := "done", type := .endEvent }]

def dailyWorkflow : Workflow where
  name := "daily"
  process := AList.insert "process" (dailyProcess definition) ∅

/-- A process that is started by a timer, and ends at once. -/
def daily : TimedStart where
  lib := constLib ∅
  ns := "default"
  id := "workflow"
  wf := dailyWorkflow definition
  pr := dailyProcess definition
  el := dailyStart definition
  definition := definition
  found := by rfl
  timer := rfl

/-- A message for the process, with what its timer carries. -/
def dailyMessage (lastFired count : Int) : WorkflowState where
  workflowId := "workflow"
  workflowName := "daily"
  processId := "process"
  elementId := "begin"
  timer := some ⟨lastFired, count⟩

/-- The world in which the workflow is stored. -/
def dailyWorld : World :=
  ({} : World).put ⟨"default", .wf, "workflow"⟩ (dailyWorkflow definition)

theorem dailyWorld_definesOnly (definition : WorkflowTimerDefinition) :
    (dailyWorld definition).DefinesOnly "workflow" (dailyWorkflow definition) where
  stored := by
    intro ns v hv
    by_cases hns : ns = "default"
    · subst hns
      rw [dailyWorld, put_value_self] at hv
      exact (Option.some.inj hv).symm
    · rw [dailyWorld, put_value_of_ne _ _ (by simpa using hns)] at hv
      cases hv
  cached := nofun

/-- A delivery that the handler makes when it is run with the choices. -/
theorem daily_delivers {definition : WorkflowTimerDefinition} {outcome : TimedOutcome}
    (time : Int64) (message : WorkflowState) (starts : Nat) (timers : List WorkflowState)
    (steps : Nat) (h : (Config.start (dailyWorld definition) fun _ : Unit =>
          (timedExecute (constLib ∅) "default" time message).run).reaches
        (World.pick noFault) ((List.replicate steps Choice.ok).map ((), ·))
        (fun c => (c.threads ()).result?.any fun r => r.toOption = some outcome ∧
          c.state.log.countP Msg.startsProcess = starts ∧
          c.state.log.filterMap Msg.timedState? = timers) = true) :
    (daily definition).Delivers ⟨time, message, outcome.answer, starts, timers⟩ := by
  obtain ⟨w', r, hexec, htest⟩ := exists_exec_of_reaches noFault (dailyWorld definition)
    (timedExecute (constLib ∅) "default" time message).run (List.replicate steps .ok)
    (fun w' r => r.toOption = some outcome ∧ w'.log.countP Msg.startsProcess = starts ∧
      w'.log.filterMap Msg.timedState? = timers) h
  obtain ⟨hr, hstarts, htimers⟩ := of_decide_eq_true htest
  cases r with
  | error answer => cases hr
  | ok outcome' =>
    obtain rfl : outcome' = outcome := Option.some.inj hr
    exact ⟨dailyWorld definition, w', w'.log, outcome', dailyWorld_definesOnly definition, hexec,
      rfl,
      (append_nil _).symm, hstarts, htimers⟩

/-! ### A fixed date -/

/-- **A process is started at most once**, never before the date, and a message that comes before it
is not acknowledged unless another one is sent. -/
structure StartsOnce (date : Int64) (history : List Delivery) : Prop where
  once : (history.map Delivery.starts).sum ≤ 1
  notBefore : ∀ δ ∈ history, δ.starts ≠ 0 → date ≤ δ.time
  scheduled : ∀ δ ∈ history, δ.time < date → δ.answer.settle = .acked → δ.timers ≠ []

theorem outcome_fixed {definition : WorkflowTimerDefinition} (htype : definition.type = .fixed)
    (lastFired count now : Int64) : definition.outcome lastFired count now =
      if definition.value ≤ now then .fired else .spent := by
  simp [outcome, spent, due,
    early, htype]

section

variable (h : T.Delivers δ) (hm : T.Message lastFired count δ.message)
  (htype : T.definition.type = .fixed)
include h hm htype

/-- Every delivery from the date on starts a process. -/
theorem Delivers.starts_of_le
    (hdue : T.definition.value ≤ δ.time) : δ.starts = 1 := by
  have houtcome := outcome_fixed htype lastFired count δ.time
  rw [if_pos hdue] at houtcome
  exact ((h.spec hm).2.1 houtcome).1

/-- Every delivery before the date is the last one: nothing is sent, and it is acknowledged. -/
theorem Delivers.settled_of_not_le
    (hearly : ¬ T.definition.value ≤ δ.time) :
    δ.starts = 0 ∧ δ.timers = [] ∧ δ.answer.settle = .acked := by
  have houtcome := outcome_fixed htype lastFired count δ.time
  rw [if_neg hearly] at houtcome
  obtain ⟨hanswer, -, hother⟩ := h.spec hm
  obtain ⟨hstarts, htimers⟩ := hother (by rw [houtcome]; nofun)
  refine ⟨hstarts, htimers, ?_⟩
  rw [hanswer, houtcome]
  rfl

end

/-- **A fixed date is kept** exactly when at most one message is delivered, and not before the
date. -/
theorem fixed_schedule_iff {history : List Delivery} {pending : List (Option Int × WorkflowState)}
    (htype : T.definition.type = .fixed) (hrun : T.Schedule history pending) :
    StartsOnce T.definition.value history ↔
      history.length ≤ 1 ∧ ∀ δ ∈ history, T.definition.value ≤ δ.time := by
  have hstarts : (∀ δ ∈ history, T.definition.value ≤ δ.time) →
      (history.map Delivery.starts).sum = history.length := by
    intro hdue
    have hone : ∀ n ∈ history.map Delivery.starts, n = 1 := by
      intro n hn
      obtain ⟨δ, hδ, rfl⟩ := List.mem_map.1 hn
      obtain ⟨hdelivers, lastFired, count, hm⟩ := hrun.messages.2 δ hδ
      exact hdelivers.starts_of_le hm htype (hdue δ hδ)
    rw [List.eq_replicate_of_mem hone, List.sum_replicate_nat, List.length_map, Nat.mul_one]
  constructor
  · intro h
    have hdue : ∀ δ ∈ history, T.definition.value ≤ δ.time := by
      intro δ hδ
      by_contra hearly
      obtain ⟨hdelivers, lastFired, count, hm⟩ := hrun.messages.2 δ hδ
      obtain ⟨-, htimers, hsettle⟩ := hdelivers.settled_of_not_le hm htype hearly
      exact h.scheduled δ hδ (Int64.not_le.1 hearly) hsettle htimers
    exact ⟨hstarts hdue ▸ h.once, hdue⟩
  · rintro ⟨hlength, hdue⟩
    exact ⟨(hstarts hdue).symm ▸ hlength, fun δ hδ _ => hdue δ hδ,
      fun δ hδ hearly => absurd (hdue δ hδ) (Int64.not_le.2 hearly)⟩

/-- The process is to be started at the time 10. -/
def onDate : WorkflowTimerDefinition := { type := .fixed, value := 10 }

def onDateFired : Delivery :=
  ⟨10, dailyMessage 0 0, TimedOutcome.fired.answer, 1, [dailyMessage 10 1]⟩

theorem onDate_schedule : (daily onDate).Schedule [onDateFired] [(none, dailyMessage 10 1)] :=
  @Schedule.deliver _ [] [] [] none onDateFired (.start 0 0) nofun
    (daily_delivers 10 (dailyMessage 0 0) 1 [dailyMessage 10 1] 36 (by decide +kernel))

theorem fixed_schedule_on_date : StartsOnce 10 [onDateFired] ↔
      [onDateFired].length ≤ 1 ∧ ∀ δ ∈ [onDateFired], (10 : Int64) ≤ δ.time :=
  fixed_schedule_iff (T := daily onDate) rfl onDate_schedule

/-- The message of the first start is followed by a second start; and a message that comes before
the date is acknowledged, with nothing left to be delivered. -/
theorem fixed_date_repeated_or_missed :
    (∃ δ, (daily onDate).Schedule [δ, onDateFired] [(none, dailyMessage 11 2)] ∧
      ¬ StartsOnce 10 [δ, onDateFired]) ∧
    ∃ δ, (daily onDate).Schedule [δ] [] ∧ δ.time = 9 ∧ ¬ StartsOnce 10 [δ] := by
  refine ⟨⟨⟨11, dailyMessage 10 1, TimedOutcome.fired.answer, 1, [dailyMessage 11 2]⟩, ?_, ?_⟩,
    ⟨9, dailyMessage 0 0, TimedOutcome.spent.answer, 0, []⟩, ?_, rfl, ?_⟩
  · exact @Schedule.deliver _ [onDateFired] [] [] none _ onDate_schedule nofun
      (daily_delivers 11 (dailyMessage 10 1) 1 [dailyMessage 11 2] 36 (by decide +kernel))
  · exact fun h => absurd h.once (by decide)
  · exact @Schedule.deliver _ [] [] [] none _ (.start 0 0) nofun
      (daily_delivers 9 (dailyMessage 0 0) 0 [] 4 (by decide +kernel))
  · exact fun h => h.scheduled _ List.mem_cons_self (by decide) rfl rfl

/-! ### An interval -/

/-- The timer has fired at most as often as given, the starts are an interval apart, and the delay
that is asked for ends one interval after the timer has last fired. -/
structure KeepsInterval (definition : WorkflowTimerDefinition) (history : List Delivery) :
    Prop where
  atMost : ((history.map Delivery.starts).sum : Int) ≤ definition.repeat_.toInt
  apart : history.Pairwise fun later earlier => later.starts ≠ 0 → earlier.starts ≠ 0 →
    earlier.time.toInt + definition.value.toInt ≤ later.time.toInt
  delays : ∀ δ ∈ history, ∀ timer, δ.message.timer = some timer → δ.starts = 0 →
    timer.count < definition.repeat_.toInt →
      δ.answer.delay.toInt = timer.lastFired + definition.value.toInt - δ.time.toInt

/-- The time of the last delivery. The first one is counted from the epoch. -/
def lastTime : List Int64 → Int
  | [] => 0
  | t :: _ => t.toInt

/-- The first `r` of the times are an interval apart. -/
def InTime (v r : Int) : List Int64 → Prop
  | [] => True
  | t :: times => InTime v r times ∧ ((times.length : Int) < r → lastTime times + v ≤ t.toInt)

theorem outcome_of_fits {definition : WorkflowTimerDefinition} (htype : definition.type = .duration)
    (hrepeat : 0 < definition.repeat_.toInt) {lastFired count now : Int64}
    (hfits : Fits (now.toInt - lastFired.toInt)) : definition.outcome lastFired count now =
      if definition.repeat_.toInt ≤ count.toInt then .spent
      else if lastFired.toInt + definition.value.toInt ≤ now.toInt then .fired
      else .declined (definition.fireNext lastFired - now) := by
  have hspent : definition.spent count = true ↔ definition.repeat_.toInt ≤ count.toInt := by
    have hne : definition.repeat_ ≠ 0 := by
      intro h
      rw [h] at hrepeat
      exact absurd hrepeat (by decide)
    simp [spent, htype, hne, Int64.le_iff_toInt_le]
  have hdue : definition.due lastFired now = true ↔
      lastFired.toInt + definition.value.toInt ≤ now.toInt := by
    have hsub : (now - lastFired).toInt = now.toInt - lastFired.toInt := by
      rw [Int64.toInt_sub, hfits.bmod_eq]
    simp only [due, htype, decide_eq_true_eq, ge_iff_le,
      Int64.le_iff_toInt_le, hsub]
    omega
  simp only [outcome, hspent, hdue, early, htype]

/-- The message comes too early for a timer that is to fire again. -/
def Declines (δ : Delivery) : Prop :=
  δ.starts = 0 ∧ ∃ timer, δ.message.timer = some timer ∧ timer.count < definition.repeat_.toInt

/-- **The delay is too long**: it is never the one that ends an interval after the last start. -/
theorem Delivers.delay_ne (h : T.Delivers δ)
    (hm : T.Message lastFired count δ.message) (htype : T.definition.type = .duration)
    (hvalue : 0 < T.definition.value.toInt) (hstarts : δ.starts = 0)
    (hcount : count.toInt < T.definition.repeat_.toInt) :
    δ.answer.delay.toInt ≠ lastFired.toInt + T.definition.value.toInt - δ.time.toInt := by
  obtain ⟨hanswer, hfired, -⟩ := h.spec hm
  have hspent : ¬ T.definition.spent count = true := by
    simp only [spent, decide_eq_true_eq, Int64.le_iff_toInt_le]
    rintro ⟨-, -, hle⟩
    omega
  have hdue : ¬ T.definition.due lastFired δ.time = true := by
    intro hdue
    have hone := (hfired (by rw [outcome, if_neg hspent, if_pos hdue])).1
    omega
  have hdelay : δ.answer.delay = lastFired + T.definition.value * 2 - δ.time := by
    rw [hanswer, outcome, if_neg hspent, if_neg hdue,
      early, htype]
    rfl
  intro heq
  have hexact : δ.answer.delay.toInt =
      (lastFired.toInt + T.definition.value.toInt * 2 - δ.time.toInt).bmod (2 ^ 64) := by
    rw [hdelay]
    simp [Int64.toInt_sub, Int64.toInt_add, Int64.toInt_mul]
  -- the two delays would be the same in 64 bits, and they differ by the interval
  have hdvd := @Int.dvd_bmod_sub_self
    (lastFired.toInt + T.definition.value.toInt * 2 - δ.time.toInt) (2 ^ 64)
  rw [← hexact, heq] at hdvd
  have hfits := fits_toInt T.definition.value
  unfold Fits at hfits
  omega

/-- Where the timer stands after the deliveries: when it has last fired, and how often. -/
structure Position (definition : WorkflowTimerDefinition) (history : List Delivery)
    (lastFired count : Int64) : Prop where
  count_eq : count.toInt = (history.map Delivery.starts).sum
  count_le : count.toInt ≤ definition.repeat_.toInt
  count_le_length : count.toInt ≤ history.length
  nonneg : 0 ≤ lastFired.toInt
  last : lastFired.toInt = 0 ∨ ∃ δ ∈ history, δ.time = lastFired
  latest : ∀ δ ∈ history, δ.starts ≠ 0 → δ.time.toInt ≤ lastFired.toInt
  apart : history.Pairwise fun later earlier => later.starts ≠ 0 → earlier.starts ≠ 0 →
    earlier.time.toInt + definition.value.toInt ≤ later.time.toInt
  inTime : (∀ δ ∈ history, ¬ Declines definition δ) ↔
    InTime definition.value.toInt definition.repeat_.toInt (history.map Delivery.time)
  punctual : (∀ δ ∈ history, ¬ Declines definition δ) → count.toInt < definition.repeat_.toInt →
    (history.length : Int) = count.toInt ∧
      lastTime (history.map Delivery.time) = lastFired.toInt

namespace Position

variable {definition : WorkflowTimerDefinition} {history : List Delivery}

theorem nil (hrepeat : 0 < definition.repeat_.toInt) : Position definition [] 0 0 where
  count_eq := rfl
  count_le := le_of_lt hrepeat
  count_le_length := le_rfl
  nonneg := le_rfl
  last := .inl rfl
  latest _ hδ := absurd hδ not_mem_nil
  apart := List.Pairwise.nil
  inTime := ⟨fun _ => trivial, fun _ _ hδ => absurd hδ not_mem_nil⟩
  punctual _ _ := ⟨rfl, rfl⟩

variable (h : Position definition history lastFired count)
include h

/-- A delivery that starts nothing leaves the timer where it is. -/
theorem keep (hstarts : δ.starts = 0)
    (hinTime : (∀ δ' ∈ δ :: history, ¬ Declines definition δ') ↔
      InTime definition.value.toInt definition.repeat_.toInt ((δ :: history).map Delivery.time))
    (hpunctual : count.toInt < definition.repeat_.toInt → Declines definition δ) :
    Position definition (δ :: history) lastFired count where
  count_eq := by
    rw [map_cons, sum_cons, hstarts, Nat.zero_add]
    exact h.count_eq
  count_le := h.count_le
  count_le_length := by
    have := h.count_le_length
    rw [length_cons]
    omega
  nonneg := h.nonneg
  last := h.last.imp_right fun ⟨δ', hδ', htime⟩ => ⟨δ', mem_cons_of_mem _ hδ', htime⟩
  latest := forall_mem_cons.2 ⟨fun hne => absurd hstarts hne, h.latest⟩
  apart := pairwise_cons.2 ⟨fun _ _ hne => absurd hstarts hne, h.apart⟩
  inTime := hinTime
  punctual hnone hcount := absurd (hpunctual hcount) (hnone δ mem_cons_self)

/-- The timer has fired as often as it should. -/
theorem spend
    (hm : δ.message.timer = some ⟨lastFired.toInt, count.toInt⟩) (hstarts : δ.starts = 0)
    (hcount : definition.repeat_.toInt ≤ count.toInt) :
    Position definition (δ :: history) lastFired count := by
  have hkept : ¬ Declines definition δ := by
    rintro ⟨-, timer, htimer, hlt⟩
    obtain rfl := Option.mem_unique hm htimer
    exact absurd hcount (not_le.2 hlt)
  refine h.keep hstarts ?_ fun hlt => absurd hcount (not_le.2 hlt)
  have hlength : ¬ ((history.map Delivery.time).length : Int) < definition.repeat_.toInt := by
    have := h.count_le_length
    rw [length_map]
    omega
  rw [forall_mem_cons, h.inTime, map_cons, InTime]
  exact ⟨fun hin => ⟨hin.2, fun hlt => absurd hlt hlength⟩, fun hin => ⟨hkept, hin.1⟩⟩

/-- The message comes too early. -/
theorem decline
    (hm : δ.message.timer = some ⟨lastFired.toInt, count.toInt⟩) (hstarts : δ.starts = 0)
    (hcount : count.toInt < definition.repeat_.toInt)
    (hearly : δ.time.toInt < lastFired.toInt + definition.value.toInt) :
    Position definition (δ :: history) lastFired count := by
  have hdeclines : Declines definition δ := ⟨hstarts, _, hm, hcount⟩
  refine h.keep hstarts ?_ fun _ => hdeclines
  rw [forall_mem_cons, map_cons, InTime]
  refine ⟨fun hnone => absurd hdeclines hnone.1, fun ⟨hin, hlate⟩ => ?_⟩
  obtain ⟨hlength, hlast⟩ := h.punctual (h.inTime.2 hin) hcount
  have := hlate (by rw [length_map]; omega)
  omega

/-- The timer fires. -/
theorem fire (hstarts : δ.starts = 1)
    (hvalue : 0 < definition.value.toInt) (hcount : count.toInt < definition.repeat_.toInt)
    (hdue : lastFired.toInt + definition.value.toInt ≤ δ.time.toInt) :
    Position definition (δ :: history) δ.time (count + 1) := by
  have hnonneg := h.nonneg
  have hsum := h.count_eq
  have hlength := h.count_le_length
  have hnext : (count + 1).toInt = count.toInt + 1 := by
    have hrepeatFits := fits_toInt definition.repeat_
    have hcountFits := fits_toInt count
    unfold Fits at hrepeatFits hcountFits
    have hone : (1 : Int64).toInt = 1 := by decide
    rw [toInt_add_of_fits (by rw [hone]; unfold Fits; omega), hone]
  have hfires : ¬ Declines definition δ := fun hdeclines => by
    have := hdeclines.1
    omega
  exact {
    count_eq := by
      rw [map_cons, sum_cons, hstarts, hnext]
      omega
    count_le := by omega
    count_le_length := by
      rw [length_cons]
      omega
    nonneg := by omega
    last := .inr ⟨δ, mem_cons_self, rfl⟩
    latest := forall_mem_cons.2 ⟨fun _ => le_rfl, fun δ' hδ' hne => by
      have := h.latest δ' hδ' hne
      omega⟩
    apart := pairwise_cons.2 ⟨fun δ' hδ' _ hne => by
      have := h.latest δ' hδ' hne
      omega, h.apart⟩
    inTime := by
      rw [forall_mem_cons, map_cons, InTime]
      refine ⟨fun hnone => ⟨h.inTime.1 hnone.2, fun _ => ?_⟩, fun hin => ⟨hfires, h.inTime.2 hin.1⟩⟩
      rw [(h.punctual hnone.2 hcount).2]
      exact hdue
    punctual := fun hnone _ => by
      have := (h.punctual (forall_mem_cons.1 hnone).2 hcount).1
      refine ⟨?_, rfl⟩
      rw [length_cons]
      omega }

end Position

/-- The arithmetic of the handler is exact along a run: a timer that has fired has fired before. -/
theorem Position.fits {definition : WorkflowTimerDefinition}
    {lastFired count now : Int64} (h : Position definition history lastFired count)
    (hclock : ∀ δ ∈ history, δ.time ≤ now) : Fits (now.toInt - lastFired.toInt) := by
  have hnow := fits_toInt now
  have hnonneg := h.nonneg
  unfold Fits at hnow ⊢
  rcases h.last with hzero | ⟨δ, hδ, htime⟩
  · omega
  · have hle := Int64.le_iff_toInt_le.1 (hclock δ hδ)
    rw [htime] at hle
    omega

theorem settle_declined (delay : Int64) : (TimedOutcome.declined delay).answer.settle =
    if delay > 0 then .nakWithDelay delay else .nak := rfl

/-- **The step**: the timer stands somewhere after a delivery as well, and at most one message is
left to be delivered. -/
theorem Delivers.position (h : T.Delivers δ) (hm : T.Message lastFired count δ.message)
    (hposition : Position T.definition history lastFired count)
    (htype : T.definition.type = .duration) (hvalue : 0 < T.definition.value.toInt)
    (hrepeat : 0 < T.definition.repeat_.toInt) (hclock : ∀ δ' ∈ history, δ'.time ≤ δ.time) :
    ∃ lastFired count, Position T.definition (δ :: history) lastFired count ∧
      δ.pending.length ≤ 1 ∧ ∀ p ∈ δ.pending, T.Message lastFired count p.2 := by
  obtain ⟨hanswer, hfired, hother⟩ := h.spec hm
  have houtcome := @outcome_of_fits _ htype hrepeat _ count _ (hposition.fits hclock)
  by_cases hspent : T.definition.repeat_.toInt ≤ count.toInt
  · rw [if_pos hspent] at houtcome
    rw [houtcome] at hanswer hother
    obtain ⟨hstarts, htimers⟩ := hother nofun
    refine ⟨lastFired, count, hposition.spend hm.timer hstarts hspent, ?_⟩
    have hpending : δ.pending = [] := by
      rw [Delivery.pending, hanswer, htimers]
      rfl
    rw [hpending]
    exact ⟨Nat.zero_le 1, fun p hp => absurd hp not_mem_nil⟩
  · rw [if_neg hspent] at houtcome
    by_cases hdue : lastFired.toInt + T.definition.value.toInt ≤ δ.time.toInt
    · rw [if_pos hdue] at houtcome
      obtain ⟨hstarts, next, htimers, hnext⟩ := hfired houtcome
      rw [houtcome] at hanswer
      refine ⟨δ.time, count + 1, hposition.fire hstarts hvalue (not_le.1 hspent) hdue, ?_⟩
      have hpending : δ.pending = [(none, next)] := by
        rw [Delivery.pending, hanswer, htimers]
        rfl
      rw [hpending]
      exact ⟨le_rfl, fun p hp => mem_singleton.1 hp ▸ hnext⟩
    · rw [if_neg hdue] at houtcome
      rw [houtcome] at hanswer hother
      obtain ⟨hstarts, htimers⟩ := hother nofun
      refine ⟨lastFired, count, hposition.decline hm.timer hstarts (not_le.1 hspent)
        (not_le.1 hdue), ?_⟩
      have hpending : ∃ earliest, δ.pending = [(earliest, δ.message)] := by
        rw [Delivery.pending, hanswer, htimers, settle_declined]
        by_cases hdelay : T.definition.fireNext lastFired - δ.time > 0
        · rw [if_pos hdelay]
          exact ⟨_, rfl⟩
        · rw [if_neg hdelay]
          exact ⟨_, rfl⟩
      obtain ⟨earliest, hpending⟩ := hpending
      rw [hpending]
      exact ⟨le_rfl, fun p hp => mem_singleton.1 hp ▸ hm⟩

theorem Schedule.position {pending : List (Option Int × WorkflowState)}
    (h : T.Schedule history pending) (htype : T.definition.type = .duration)
    (hvalue : 0 < T.definition.value.toInt) (hrepeat : 0 < T.definition.repeat_.toInt)
    (hclock : history.Pairwise fun later earlier => earlier.time ≤ later.time) :
    ∃ lastFired count, Position T.definition history lastFired count ∧
      pending.length ≤ 1 ∧ ∀ p ∈ pending, T.Message lastFired count p.2 := by
  induction h with
  | start t t' =>
    refine ⟨0, 0, Position.nil hrepeat, le_rfl, fun p hp => ?_⟩
    rw [mem_singleton.1 hp]
    exact message_timedStart t t'
  | @deliver history before after earliest δ run waited delivers ih =>
    obtain ⟨hbefore, hclock⟩ := pairwise_cons.1 hclock
    obtain ⟨lastFired, count, hposition, hlength, hmessages⟩ := ih hclock
    have hm := hmessages (earliest, δ.message) (mem_append_right _ mem_cons_self)
    rw [length_append, length_cons] at hlength
    obtain rfl : before = [] := eq_nil_of_length_eq_zero (by omega)
    obtain rfl : after = [] := eq_nil_of_length_eq_zero (by omega)
    exact delivers.position hm hposition htype hvalue hrepeat hbefore

/-- **An interval is kept** exactly when no message comes too early: each of the first deliveries,
as many as the timer is to fire, comes an interval after the one before. -/
theorem interval_schedule_iff {history : List Delivery}
    {pending : List (Option Int × WorkflowState)} (htype : T.definition.type = .duration)
    (hvalue : 0 < T.definition.value) (hrepeat : 0 < T.definition.repeat_)
    (hrun : T.Schedule history pending)
    (hclock : history.Pairwise fun later earlier => earlier.time ≤ later.time) :
    KeepsInterval T.definition history ↔
      InTime T.definition.value.toInt T.definition.repeat_.toInt (history.map Delivery.time) := by
  have hvalue' : 0 < T.definition.value.toInt := Int64.lt_iff_toInt_lt.1 hvalue
  have hrepeat' : 0 < T.definition.repeat_.toInt := Int64.lt_iff_toInt_lt.1 hrepeat
  obtain ⟨lastFired, count, hposition, -⟩ := hrun.position htype hvalue' hrepeat' hclock
  rw [← hposition.inTime]
  constructor
  · rintro h δ hδ ⟨hstarts, timer, htimer, hcount⟩
    obtain ⟨hdelivers, lastFired', count', hm⟩ := hrun.messages.2 δ hδ
    obtain rfl : timer = ⟨lastFired'.toInt, count'.toInt⟩ :=
      Option.mem_unique htimer hm.timer
    exact hdelivers.delay_ne hm htype hvalue' hstarts hcount (h.delays δ hδ _ htimer hstarts hcount)
  · intro hnone
    exact {
      atMost := hposition.count_eq ▸ hposition.count_le
      apart := hposition.apart
      delays := fun δ hδ timer htimer hstarts hcount =>
        absurd ⟨hstarts, timer, htimer, hcount⟩ (hnone δ hδ) }

/-- The process is to be started twice, at intervals of 10. -/
def everyTen : WorkflowTimerDefinition := { type := .duration, value := 10, repeat_ := 2 }

def everyTenFired : Delivery :=
  ⟨10, dailyMessage 0 0, TimedOutcome.fired.answer, 1, [dailyMessage 10 1]⟩

theorem everyTen_schedule : (daily everyTen).Schedule [everyTenFired] [(none, dailyMessage 10 1)] :=
  @Schedule.deliver _ [] [] [] none everyTenFired (.start 0 0) nofun
    (daily_delivers 10 (dailyMessage 0 0) 1 [dailyMessage 10 1] 36 (by decide +kernel))

theorem interval_schedule_twice :
    ∃ δ, (daily everyTen).Schedule [δ, everyTenFired] [(none, dailyMessage 20 2)] ∧
      (KeepsInterval everyTen [δ, everyTenFired] ↔ InTime 10 2 [20, 10]) := by
  have hrun : (daily everyTen).Schedule
      [⟨20, dailyMessage 10 1, TimedOutcome.fired.answer, 1, [dailyMessage 20 2]⟩, everyTenFired]
      [(none, dailyMessage 20 2)] :=
    @Schedule.deliver _ [everyTenFired] [] [] none _ everyTen_schedule nofun
      (daily_delivers 20 (dailyMessage 10 1) 1 [dailyMessage 20 2] 36 (by decide +kernel))
  exact ⟨_, hrun, interval_schedule_iff (T := daily everyTen) rfl (by decide) (by decide) hrun
    (by simp [everyTenFired])⟩

/-- A message that comes 2 after the timer has fired is handed back for 18, not for 8. -/
theorem early_message_waits_too_long :
    ∃ δ, (daily everyTen).Schedule [δ, everyTenFired] [(some 30, dailyMessage 10 1)] ∧
      δ.time = 12 ∧ δ.message.timer = some ⟨10, 1⟩ ∧ δ.answer.delay = 18 ∧
      ¬ KeepsInterval everyTen [δ, everyTenFired] := by
  refine ⟨⟨12, dailyMessage 10 1, (TimedOutcome.declined 18).answer, 0, []⟩, ?_, rfl, rfl, rfl, ?_⟩
  · exact @Schedule.deliver _ [everyTenFired] [] [] none _ everyTen_schedule nofun
      (daily_delivers 12 (dailyMessage 10 1) 0 [] 4 (by decide +kernel))
  · intro h
    exact absurd (h.delays _ List.mem_cons_self ⟨10, 1⟩ rfl rfl (by decide)) (by decide)

end TimedStart

end SharWorkflow
