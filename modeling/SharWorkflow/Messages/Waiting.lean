import SharWorkflow.Messages.Delivery
import Mathlib.Data.Fintype.Sum

/-!
# Jobs that wait for a message

Any number of process instances wait for one message, and any number of senders send it. All of them
meet in one exchange, which holds one receiver for each *element*. So a job that arrives at an
element takes the place of the one that waits there already (`waiting_job_overwritten`). And whoever
sees all expected receivers deletes the exchange, although others may have arrived after it has read
the exchange, or be about to be served by a sender.

* `Catching`: the jobs that wait for a message, and its senders.
* `Catching.Orderly`: no job takes the place of another one, and the exchange is deleted only when
  no party is on its way and no sender has receivers left to serve.
* `waiting_job_kept`: **in every orderly run** a job whose handler has returned without error has
  been completed or is still recorded in the exchange.
-/

namespace SharWorkflow

open Concurrent Protocol List World

/-- **The jobs that wait for a message, and its senders.** The handler of a job may be run several
times, so different `i : ι` may stand for the same job. -/
structure Catching (ι κ : Type) where
  lib : Lib
  ns : String
  /-- the name of the message -/
  name : String
  /-- the correlation key -/
  key : String
  job : ι → WorkflowState
  workflow : ι → Workflow
  /-- the variables of the senders -/
  vars : κ → Bytes
  waits : ∀ i el, (elementTable (workflow i)).lookup (job i).elementId = some el →
    el.msg = name ∧ correlationKeyOf lib (job i) el = .ok key

/-- The exchange that a call has read at a location. -/
def exchangeRead (loc : Loc) : (o : Op) → Ans o → Option Exchange
  | .get ⟨ns, .wfMessages, key⟩, .ok entry =>
    if (⟨ns, .wfMessages, key⟩ : Loc) = loc then some entry.value else none
  | _, _ => none

namespace Catching

variable {ι κ : Type} (C : Catching ι κ)

/-- Where the exchange is stored. -/
abbrev loc : Loc := messageLoc C.ns C.name C.key

/-- The id of a job that waits. -/
def jobId (i : ι) : String := TrackingID.ID (C.job i).id

def receiver (i : ι) : Receiver := ⟨C.jobId i, C.key⟩

def sender (k : κ) : Sender := ⟨C.vars k, C.key⟩

/-- The runs of the handlers. -/
def runs : ι ⊕ κ → P (Except (Bool × Err) Bool)
  | .inl i => (awaitMessageProcessor C.lib C.ns (C.job i)).run
  | .inr k => (processMessage C.ns ⟨C.name, C.key, C.vars k⟩).run

/-- A party is added to an exchange. -/
def setParty : ι ⊕ κ → Exchange → Exchange
  | .inl i, exch =>
    { exch with receivers := exch.receivers.insert (C.job i).elementId (C.receiver i) }
  | .inr k, exch => { exch with sender := some (C.sender k) }

/-- The side on which a party is. -/
def partyOf : ι ⊕ κ → Party
  | .inl _ => .receiver
  | .inr _ => .sender

/-- The element at which a party waits. -/
def elementOf : ι ⊕ κ → String
  | .inl i => (C.job i).elementId
  | .inr _ => ""

/-- The exchange holds the party. -/
def Holds : ι ⊕ κ → Exchange → Prop
  | .inl i, exch => exch.receivers.lookup (C.job i).elementId = some (C.receiver i)
  | .inr _, exch => exch.sender ≠ none

/-- The definitions of the workflows are the given ones, and jobs are stored under their ids. -/
structure Known (w : World) : Prop where
  defined : ∀ i (wf : Workflow), w.value ⟨C.ns, .wf, (C.job i).workflowId⟩ = some wf →
    wf = C.workflow i
  stored : ∀ id (st : WorkflowState), w.value ⟨C.ns, .job, id⟩ = some st → TrackingID.ID st.id = id

/-- The jobs that have been completed. -/
def completedIds (t : List (WEvent (ι ⊕ κ))) : List String :=
  (sent .jobAwaitMessageComplete t).map fun state => TrackingID.ID state.id

/-- The receivers that senders have read in the exchange. -/
def readBySenders (t : List (WEvent (ι ⊕ κ))) : List Receiver :=
  t.flatMap fun e =>
    if e.thread.isRight then
      ((exchangeRead C.loc e.op e.answer).map fun exch => exch.receivers.entries.map (·.2)).getD []
    else []

/-- The job has been completed. -/
def Completed (i : ι) (t : List (WEvent (ι ⊕ κ))) : Prop := C.jobId i ∈ completedIds t

/-- The job is recorded in the exchange. -/
def Recorded (i : ι) (w : World) : Prop :=
  ∃ exch ∈ w.value C.loc, C.Holds (.inl i) exch

/-- **The condition under which no job is dropped.** The exchange is deleted only while it has a
sender, no other handler is between its call of `handleMessageExchange` and its call of
`attemptMessageDelivery`, and every receiver that a sender has read has been completed. A receiver
is added only if no other job waits at its element. -/
def Orderly [DecidableEq ι] [DecidableEq κ] (e : WEvent (ι ⊕ κ)) (t : List (WEvent (ι ⊕ κ))) :
    Prop :=
  (isDeleteAt C.loc e.op e.answer = true →
    (∀ p, p ≠ e.thread → lastMark p t ≠ some "handleMessageExchange") ∧
    (∀ r ∈ C.readBySenders t, r.id ∈ completedIds t) ∧
    ∀ exch ∈ e.before.value C.loc, Exchange.sender exch ≠ none) ∧
  (isStoreAt C.loc e.op e.answer = true → ∀ i, e.thread = .inl i → ∀ exch ∈ e.before.value C.loc,
    ∀ r ∈ (Exchange.receivers exch).lookup (C.job i).elementId, r = C.receiver i)

variable {C} in
theorem Known.congr {w w' : World} (h : C.Known w)
    (hvalue : ∀ l : Loc, l.bucket ≠ .wfMessages → w'.value l = w.value l) : C.Known w' where
  defined i wf hwf := h.defined i wf (by rwa [hvalue _ (by nofun)] at hwf)
  stored id st hst := h.stored id st (by rwa [hvalue _ (by nofun)] at hst)

/-! ### Stages -/

/-- How far a handler has come. -/
inductive Stage
  /-- it has not entered the exchange -/
  | idle
  /-- it has called `handleMessageExchange` -/
  | entered
  /-- it has found that there is an exchange -/
  | found
  /-- it has been added to the exchange -/
  | written
  /-- it has read the exchange back, without a sender -/
  | waiting
  /-- it has read the exchange back, and has to deliver -/
  | seen
  /-- it has completed its own job -/
  | served

/-- The handler is between its call of `handleMessageExchange` and its call of
`attemptMessageDelivery`. -/
def Stage.Window : Stage → Prop
  | entered | found | written => True
  | _ => False

/-- A job that waits is not dropped: it has been completed, or it is recorded, and a sender that is
in the exchange has read it or is about to. -/
def Kept (i : ι) (w : World) (t : List (WEvent (ι ⊕ κ))) (g : ι ⊕ κ → Stage) : Prop :=
  C.Completed i t ∨ ∃ exch ∈ w.value C.loc, C.Holds (.inl i) exch ∧
    (Exchange.sender exch ≠ none →
      (∃ k, g (.inr k) = .written) ∨ C.receiver i ∈ C.readBySenders t)

section Invariant

variable [DecidableEq ι] [DecidableEq κ]

/-- What is known of a party at each stage. -/
def Stays (w : World) (t : List (WEvent (ι ⊕ κ))) (g : ι ⊕ κ → Stage) (p : ι ⊕ κ) : Stage → Prop
  | .idle | .seen => True
  | .entered => lastMark p t = some "handleMessageExchange"
  | .found => lastMark p t = some "handleMessageExchange" ∧ w.value C.loc ≠ none
  | .written => lastMark p t = some "handleMessageExchange" ∧ ∃ exch ∈ w.value C.loc, C.Holds p exch
  | .waiting => ∀ i, p = .inl i → C.Kept i w t g
  | .served => ∀ i, p = .inl i → C.Completed i t

/-- The invariant: every party is at its stage, and the exchange is not empty. -/
structure Inv (w : World) (t : List (WEvent (ι ⊕ κ))) (g : ι ⊕ κ → Stage) : Prop where
  known : C.Known w
  filled : ∀ exch ∈ w.value C.loc, exch ≠ ({} : Exchange)
  party : ∀ p, C.Stays w t g p (g p)

variable {C} {w w' : World} {t t' : List (WEvent (ι ⊕ κ))} {g g' : ι ⊕ κ → Stage} {p : ι ⊕ κ}
  {l : Stage}

omit [DecidableEq ι] [DecidableEq κ] in
theorem completedIds_subset (e : WEvent (ι ⊕ κ)) (t : List (WEvent (ι ⊕ κ))) :
    completedIds t ⊆ completedIds (e :: t) :=
  map_subset _ ((sublist_cons_self e t).filterMap _).subset

omit [DecidableEq ι] [DecidableEq κ] in
theorem readBySenders_subset (e : WEvent (ι ⊕ κ)) (t : List (WEvent (ι ⊕ κ))) :
    C.readBySenders t ⊆ C.readBySenders (e :: t) :=
  subset_append_right _ _

/-- A party between the two calls is known by its last mark. -/
theorem Stays.window (h : C.Stays w t g p l) (hl : l.Window) :
    lastMark p t = some "handleMessageExchange" := by
  cases l with
  | entered => exact h
  | found | written => exact h.1
  | idle | waiting | seen | served => exact hl.elim

/-- A party stays at its stage, if nothing is taken away from it. -/
theorem Stays.mono (h : C.Stays w t g p l) (hmark : l.Window → lastMark p t' = lastMark p t)
    (hpresent : ∀ exch ∈ w.value C.loc, ∃ exch' ∈ w'.value C.loc, C.Holds p exch → C.Holds p exch')
    (hcompleted : completedIds t ⊆ completedIds t')
    (hkept : ∀ i, p = .inl i → C.Kept i w t g → C.Kept i w' t' g') : C.Stays w' t' g' p l := by
  cases l with
  | idle | seen => trivial
  | entered => exact (hmark trivial).trans h
  | found =>
    obtain ⟨exch, hexch⟩ := Option.ne_none_iff_exists'.1 h.2
    obtain ⟨exch', hexch', -⟩ := hpresent exch hexch
    exact ⟨(hmark trivial).trans h.1, Option.ne_none_iff_exists'.2 ⟨exch', hexch'⟩⟩
  | written =>
    obtain ⟨hin, exch, hexch, hself⟩ := h
    obtain ⟨exch', hexch', hholds⟩ := hpresent exch hexch
    exact ⟨(hmark trivial).trans hin, exch', hexch', hholds hself⟩
  | waiting => exact fun i hi => hkept i hi (h i hi)
  | served => exact fun i hi => hcompleted (h i hi)

variable {o : Op} {r : Ans o}

variable (h : C.Inv w t g)
include h

/-- **A step of a party that deletes nothing.** The exchange may grow, and a sender that leaves the
stage at which it is added has read the receivers. -/
theorem Inv.act (hknown : C.Known w') (hfilled : ∀ exch ∈ w'.value C.loc, exch ≠ ({} : Exchange))
    (hgrow : ∀ exch ∈ w.value C.loc, ∃ exch' ∈ w'.value C.loc,
      (∀ q, C.Holds q exch → C.Holds q exch') ∧ (Exchange.sender exch' ≠ none →
        Exchange.sender exch ≠ none ∨ ∃ k, p = .inr k ∧ l = .written))
    (hread : ∀ k, p = .inr k → g p = .written → l ≠ .written → ∀ i, ∀ exch ∈ w.value C.loc,
      C.Holds (.inl i) exch → C.receiver i ∈ C.readBySenders (⟨p, w, o, r⟩ :: t))
    (hself : C.Stays w' (⟨p, w, o, r⟩ :: t) (Function.update g p l) p l) :
    C.Inv w' (⟨p, w, o, r⟩ :: t) (Function.update g p l) := by
  refine ⟨hknown, hfilled, fun q => ?_⟩
  by_cases hq : q = p
  · subst hq
    rwa [Function.update_self]
  rw [Function.update_of_ne hq]
  refine (h.party q).mono (fun _ => lastMark_cons_of_ne (Ne.symm hq) t) ?_
    (completedIds_subset _ t) ?_
  · intro exch hexch
    obtain ⟨exch', hexch', hholds, -⟩ := hgrow exch hexch
    exact ⟨exch', hexch', hholds q⟩
  rintro i - (hcompleted | ⟨exch, hexch, hholds, hsender⟩)
  · exact .inl (completedIds_subset _ t hcompleted)
  obtain ⟨exch', hexch', hmono, harrived⟩ := hgrow exch hexch
  refine .inr ⟨exch', hexch', hmono _ hholds, fun hsome => ?_⟩
  rcases harrived hsome with hsome | ⟨k, rfl, rfl⟩
  · rcases hsender hsome with ⟨k, hk⟩ | hseen
    · by_cases hkp : Sum.inr k = p
      · -- the sender itself has made the step
        by_cases hl : l = .written
        · exact .inl ⟨k, by rw [hkp, Function.update_self, hl]⟩
        · exact .inr (hread k hkp.symm (hkp ▸ hk) hl i exch hexch hholds)
      · exact .inl ⟨k, by rw [Function.update_of_ne hkp, hk]⟩
    · exact .inr (readBySenders_subset _ t hseen)
  · exact .inl ⟨k, Function.update_self ..⟩

/-- A step that leaves the store alone, after which the party is at the same stage. -/
theorem Inv.keep (hvalue : ∀ l, w'.value l = w.value l)
    (hmark : (g p).Window → lastMark p (⟨p, w, o, r⟩ :: t) = lastMark p t) :
    C.Inv w' (⟨p, w, o, r⟩ :: t) g := by
  refine ⟨h.known.congr fun l _ => hvalue l,
    fun exch hexch => h.filled exch (by rwa [← hvalue]), fun q => ?_⟩
  refine (h.party q).mono ?_ (fun exch hexch => ⟨exch, by rwa [hvalue], id⟩)
    (completedIds_subset _ t) ?_
  · intro hq
    by_cases hqp : q = p
    · subst hqp
      exact hmark hq
    · exact lastMark_cons_of_ne (Ne.symm hqp) t
  · rintro i - (hcompleted | ⟨exch, hexch, hholds, hsender⟩)
    · exact .inl (completedIds_subset _ t hcompleted)
    · exact .inr ⟨exch, by rwa [hvalue], hholds, fun hsome =>
        (hsender hsome).imp_right (readBySenders_subset _ t ·)⟩

/-- **The deletion of the exchange.** Every job that waits has been completed. -/
theorem Inv.delete (hp : ¬ (g p).Window) (horderly : C.Orderly ⟨p, w, .delete C.loc, .ok ()⟩ t) :
    C.Inv (w.clear C.loc) (⟨p, w, .delete C.loc, .ok ()⟩ :: t) g := by
  obtain ⟨halone, hread, hsender⟩ := horderly.1 (by simp [isDeleteAt])
  have hout (q : ι ⊕ κ) : ¬ (g q).Window := by
    intro hq
    by_cases hqp : q = p
    · exact hp (hqp ▸ hq)
    · exact halone q hqp ((h.party q).window hq)
  have hknown : C.Known (w.clear C.loc) :=
    h.known.congr fun l hl => clear_value_of_ne _ fun heq => hl (by rw [heq])
  refine ⟨hknown, ?_, fun q => ?_⟩
  · intro exch hexch
    rw [clear_value_self] at hexch
    cases hexch
  have hq := h.party q
  cases hg : g q with
  | idle | seen => trivial
  | entered | found | written =>
    -- only the party that deletes could be in the window, and it has left it
    exact (hout q (by rw [hg]; trivial)).elim
  | served =>
    rw [hg] at hq
    exact fun i hi => completedIds_subset _ t (hq i hi)
  | waiting =>
    rw [hg] at hq
    refine fun i hi => .inl (completedIds_subset _ t ?_)
    rcases hq i hi with hcompleted | ⟨exch, hexch, -, harrived⟩
    · exact hcompleted
    rcases harrived (hsender exch hexch) with ⟨k, hk⟩ | hseen
    · exact (hout (.inr k) (by rw [hk]; trivial)).elim
    · exact hread _ hseen

/-! ### The steps of a party -/

omit h in
omit [DecidableEq ι] [DecidableEq κ] in
theorem holds_setParty (p : ι ⊕ κ) (exch : Exchange) : C.Holds p (C.setParty p exch) := by
  cases p with
  | inl i => exact AList.lookup_insert _
  | inr k => exact Option.some_ne_none _

omit h in
omit [DecidableEq ι] [DecidableEq κ] in
theorem setParty_ne_empty (p : ι ⊕ κ) (exch : Exchange) : C.setParty p exch ≠ {} := by
  intro hempty
  have hself := C.holds_setParty p exch
  rw [hempty] at hself
  cases p with
  | inl i => cases hself
  | inr k => exact hself rfl

omit h in
omit [DecidableEq ι] [DecidableEq κ] in
/-- Whoever is in the exchange stays there, unless another job waits at the same element. -/
theorem Holds.setParty {q : ι ⊕ κ} {exch : Exchange} (h : C.Holds q exch)
    (hfree : ∀ i, p = .inl i → ∀ r ∈ exch.receivers.lookup (C.job i).elementId,
      r = C.receiver i) : C.Holds q (C.setParty p exch) := by
  match p, q with
  | .inl i, .inr k => exact h
  | .inr k, .inl j => exact h
  | .inr k, .inr k' => exact Option.some_ne_none _
  | .inl i, .inl j =>
    by_cases hij : (C.job j).elementId = (C.job i).elementId
    · have hj : C.receiver j = C.receiver i := hfree i rfl _ (by rw [← hij]; exact h)
      have hinsert : (exch.receivers.insert (C.job i).elementId (C.receiver i)).lookup
          (C.job i).elementId = some (C.receiver i) := AList.lookup_insert _
      rw [Holds, hj, hij]
      exact hinsert
    · exact (AList.lookup_insert_ne hij).trans h

/-- A step of a party that leaves the exchange alone. A sender that has been added to the exchange
only reads it. -/
theorem Inv.advance (hp : g p ≠ .written)
    (hself : C.Stays w (⟨p, w, o, r⟩ :: t) (Function.update g p l) p l) :
    C.Inv w (⟨p, w, o, r⟩ :: t) (Function.update g p l) :=
  h.act h.known h.filled (fun exch hexch => ⟨exch, hexch, fun _ => id, .inl⟩)
    (fun _ _ hwritten => absurd hwritten hp) hself

/-- A party stays in the window as long as it makes no further call that leaves a mark. -/
theorem Inv.window_cons (hp : (g p).Window) (hmark : ∀ f, isMark f o = false) :
    lastMark p (⟨p, w, o, r⟩ :: t) = some "handleMessageExchange" := by
  rw [lastMark_cons_of_not_mark hmark]
  exact (h.party p).window hp

/-- The party calls `handleMessageExchange`. -/
theorem Inv.enter (hp : g p = .idle) :
    C.Inv w (⟨p, w, .mark "handleMessageExchange", ()⟩ :: t) (Function.update g p .entered) :=
  h.advance (by rw [hp]; nofun) (lastMark_cons_mark p w _ t)

variable {v : Exchange}

/-- The party finds the exchange. -/
theorem Inv.find (hp : g p = .entered) (hsome : w.value C.loc ≠ none) :
    C.Inv w (⟨p, w, .create C.loc v, .error (.sentinel .keyExists)⟩ :: t)
      (Function.update g p .found) :=
  h.advance (by rw [hp]; nofun) ⟨h.window_cons (by rw [hp]; trivial) fun _ => rfl, hsome⟩

/-- The party is added to the exchange `v` that is stored, or to an empty one. -/
theorem Inv.join (hmark : ∀ f, isMark f o = false) (hwindow : (g p).Window) (hp : g p ≠ .written)
    (hv : ∀ exch ∈ w.value C.loc, exch = v)
    (hfree : ∀ i, p = .inl i → ∀ r ∈ v.receivers.lookup (C.job i).elementId, r = C.receiver i) :
    C.Inv (w.put C.loc (C.setParty p v)) (⟨p, w, o, r⟩ :: t) (Function.update g p .written) := by
  have hvalue : (w.put C.loc (C.setParty p v)).value C.loc = some (C.setParty p v) :=
    put_value_self ..
  have hknown : C.Known (w.put C.loc (C.setParty p v)) :=
    h.known.congr fun l hl => put_value_of_ne _ _ fun heq => hl (by rw [heq])
  refine h.act hknown ?_ ?_ (fun _ _ hwritten => absurd hwritten hp)
    ⟨h.window_cons hwindow hmark, _, hvalue, C.holds_setParty p _⟩
  · intro exch hexch
    rw [hvalue] at hexch
    cases hexch
    exact C.setParty_ne_empty p _
  · intro exch hexch
    obtain rfl := hv exch hexch
    refine ⟨_, hvalue, fun q hq => hq.setParty hfree, fun hsender => ?_⟩
    cases p with
    | inl i => exact .inl hsender
    | inr k => exact .inr ⟨k, rfl, rfl⟩

/-- The party opens the exchange. -/
theorem Inv.create (hp : g p = .entered) (hnone : w.value C.loc = none) :
    C.Inv (w.put C.loc (C.setParty p {})) (⟨p, w, .create C.loc (C.setParty p {}), .ok ()⟩ :: t)
      (Function.update g p .written) := by
  refine h.join (fun _ => rfl) (by rw [hp]; trivial) (by rw [hp]; nofun) (fun exch hexch => ?_) ?_
  · rw [hnone] at hexch
    cases hexch
  · rintro i - r hr
    cases hr

/-- The party is added to the exchange. -/
theorem Inv.update (hp : g p = .found) (hv : w.value C.loc = some v) {rev : Nat}
    (horderly : C.Orderly ⟨p, w, .update C.loc (C.setParty p v) rev, .ok ()⟩ t) :
    C.Inv (w.put C.loc (C.setParty p v)) (⟨p, w, .update C.loc (C.setParty p v) rev, .ok ()⟩ :: t)
      (Function.update g p .written) := by
  refine h.join (fun _ => rfl) (by rw [hp]; trivial) (by rw [hp]; nofun) (fun exch hexch => ?_)
    fun i hi => horderly.2 (by simp [isStoreAt]) i hi v hv
  exact Option.mem_unique hexch hv

/-- The stage of a party that has read the exchange back. -/
def Stage.afterRead : ι ⊕ κ → Exchange → Stage
  | .inl _, exch => if exch.sender = none then .waiting else .seen
  | .inr _, _ => .seen

variable {entry : Entry C.loc.Val}

omit h in
omit [DecidableEq ι] [DecidableEq κ] in
/-- A sender that reads the exchange sees the receivers. -/
theorem mem_readBySenders {k : κ} {i : ι} (h : C.Holds (.inl i) entry.value) :
    C.receiver i ∈ C.readBySenders (⟨.inr k, w, .get C.loc, .ok entry⟩ :: t) := by
  refine mem_append_left _ ?_
  have hread : exchangeRead C.loc (.get C.loc) (.ok entry) = some entry.value := if_pos rfl
  have hmem := AList.mem_lookup_iff.1 (Option.mem_def.2 h)
  simp only [Sum.isRight_inr, if_true, hread, Option.map_some, Option.getD_some]
  exact mem_map.2 ⟨_, hmem, rfl⟩

/-- The party reads the exchange back. -/
theorem Inv.reload (hp : g p = .written) (hv : w.value C.loc = some entry.value) :
    C.Holds p entry.value ∧ C.Inv w (⟨p, w, .get C.loc, .ok entry⟩ :: t)
      (Function.update g p (.afterRead p entry.value)) := by
  have hself : C.Holds p entry.value := by
    have hparty := h.party p
    rw [hp] at hparty
    obtain ⟨-, exch, hexch, hholds⟩ := hparty
    obtain rfl : entry.value = exch := Option.mem_unique hv hexch
    exact hholds
  refine ⟨hself, h.act h.known h.filled (fun exch hexch => ⟨exch, hexch, fun _ => id, .inl⟩) ?_ ?_⟩
  · rintro k rfl - - i exch hexch hholds
    obtain rfl : entry.value = exch := Option.mem_unique hv hexch
    exact C.mem_readBySenders hholds
  · cases p with
    | inr k => trivial
    | inl i =>
      by_cases hsender : Exchange.sender entry.value = none
      · rw [Stage.afterRead, if_pos hsender]
        rintro j hj
        cases hj
        exact .inr ⟨entry.value, hv, hself, fun hsome => absurd hsender hsome⟩
      · rw [Stage.afterRead, if_neg hsender]
        trivial

/-- The receiver completes its own job. -/
theorem Inv.complete {i : ι} {m : Msg} {state : WorkflowState}
    (hm : sentState .jobAwaitMessageComplete (.publish m) (.ok ()) =
      some state) (hid : TrackingID.ID state.id = C.jobId i) :
    C.Inv (w.publish m) (⟨.inl i, w, .publish m, .ok ()⟩ :: t)
      (Function.update g (.inl i) .served) := by
  refine h.act (h.known.congr fun _ _ => rfl) h.filled
    (fun exch hexch => ⟨exch, hexch, fun _ => id, .inl⟩) nofun ?_
  rintro j hj
  cases hj
  refine mem_map.2 ⟨state, ?_, hid⟩
  exact mem_filterMap.2 ⟨_, mem_cons_self, hm⟩

omit h in
theorem quietInv {F : Op → Prop} : QuietInv F C.Inv := fun h henv hquiet =>
  h.keep (value_of_quiet henv hquiet) fun _ =>
    lastMark_cons_of_not_mark (fun _ => isMark_of_quiet hquiet) _

end Invariant

/-! ### The handlers -/

section Handlers

variable [DecidableEq ι] [DecidableEq κ] {C} {F : Op → Prop} {s₀ : World} {p : ι ⊕ κ} {l : Stage}

/-- A party is added to the exchange. -/
theorem safe_joinExchange {party : Party} :
    (natsProtocol F True C.Orderly C.Inv).Safe p (fun l _ r => r = .ok () → l = .written) .entered
      s₀ (joinExchange C.loc party (C.setParty p) (C.setParty p {}) ({} : Exchange)).run := by
  refine Safe.seq (safe_attempt (safe_kvCreate C.quietInv ?_ ?_ ?_))
  · exact fun hat hnone _ => ⟨.written, hat.inv.create hat.ghost hnone, .ret fun _ => rfl⟩
  · intro s t g hat hsome _
    refine ⟨.found, hat.inv.find hat.ghost hsome, ?_⟩
    refine Safe.seq (safe_wrap (safe_updateObj C.quietInv ?_ ?_ ?_ ?_))
    · -- the exchange is there, and it is not empty
      rintro s t g - ⟨s₁, t₁, g₁, r, hat₁, habsent, -⟩
      have hfound := hat₁.inv.party p
      rw [hat₁.ghost] at hfound
      rcases habsent with hnone | hzero
      · exact (hfound.2 hnone).elim
      · exact (hat₁.inv.filled _ hzero rfl).elim
    · exact fun hat hv horderly =>
        ⟨.written, hat.inv.update hat.ghost hv horderly, .ret fun _ => rfl⟩
    · exact fun _ _ => nofun
    · exact fun _ _ _ => nofun
  · intro s t g e hat _ he
    have hnot : ¬ e.is .keyExists = true := by simp [he.1]
    dsimp only
    rw [if_neg hnot]
    exact .ret nofun

/-- A sender serves the receivers it has read. -/
theorem safe_deliver {k : κ} {sender : Sender} (receivers : List (Option Receiver)) :
    (natsProtocol F True C.Orderly C.Inv).Safe (.inr k) (fun l _ _ => l = .seen) .seen s₀
      (deliver C.ns sender receivers).run := by
  induction receivers generalizing s₀ with
  | nil => exact .ret rfl
  | cons recvr rest ih =>
    refine Safe.seq (safe_deref (fun r _ => ?_) fun _ => trivial)
    refine Safe.seq (safe_attempt (safe_loadFor ⟨_, .job, _⟩ C.quietInv ?_ ?_ ?_))
    · intro s t g job hat hjob
      refine Safe.seq (safe_wrap (safe_publishWorkflowState C.quietInv nofun ?_ fun _ _ _ => rfl))
      intro s t g time hat _
      refine hat.same (hat.inv.keep (fun _ => rfl) fun _ => ?_) ih
      exact lastMark_cons_of_not_mark (fun _ => rfl) _
    · exact fun _ _ => .ret rfl
    · exact fun _ _ _ => Safe.ite (fun _ => .ret rfl) fun _ => .ret rfl

/-- A receiver that has seen a sender serves itself. -/
theorem safe_deliver_self {i : ι} {sender : Sender} :
    (natsProtocol F True C.Orderly C.Inv).Safe (.inl i)
      (fun l _ r => ∀ b, r = .ok b → l = .served) .seen s₀
      (deliver C.ns sender [some (C.receiver i)]).run := by
  refine Safe.seq (.ret (Safe.seq (safe_attempt (safe_loadFor ⟨_, .job, _⟩ C.quietInv ?_ ?_ ?_))))
  · intro s t g job hat hjob
    have hid : TrackingID.ID job.id = C.jobId i := hat.inv.known.stored _ job hjob
    refine Safe.seq (safe_wrap (safe_publishWorkflowState C.quietInv nofun ?_ fun _ _ _ => nofun))
    intro s t g time hat _
    exact ⟨.served, hat.inv.complete rfl hid, .ret fun _ _ => rfl⟩
  · exact fun _ _ => .ret nofun
  · intro s t g e hat _ he
    have hnot : ¬ e.is .keyNotFound = true := by simp [he.1]
    dsimp only
    rw [if_neg hnot]
    exact .ret nofun

/-- The end of a delivery: the exchange is deleted if all expected receivers are there. -/
theorem safe_finish (hl : ¬ l.Window) {exch : Exchange} :
    (natsProtocol F True C.Orderly C.Inv).Safe p (fun l' _ _ => l' = l) l s₀ (do
        if ← Act.wrap "failed has expected receivers" (hasAllReceivers C.ns exch C.name) then
          Act.wrap "error deleting exchange" (kvDelete C.loc) : Act Unit).run := by
  refine Safe.seq (safe_wrap (Safe.seq (safe_nsKVs C.quietInv (fun _ => ?_) fun _ _ _ => rfl)))
  refine Safe.seq (safe_wrap (safe_loadObj C.quietInv ?_ (fun _ _ => rfl) fun _ _ _ => rfl))
  intro s t g expected hat _
  refine .ret (Safe.ite (fun _ => ?_) fun _ => .ret rfl)
  refine safe_wrap (safe_kvDelete C.quietInv ?_ fun _ _ _ => rfl)
  exact fun hat horderly => hat.same (hat.inv.delete (hat.ghost ▸ hl) horderly) rfl

/-- What is left to do for a party that has returned without error. -/
def Settled (p : ι ⊕ κ) (l : Stage) : Prop := p.isLeft = true → l = .waiting ∨ l = .served

/-- A party that has read the exchange back delivers what it has to. -/
theorem safe_attemptMessageDelivery {exch : Exchange} (hself : C.Holds p exch) :
    (natsProtocol F True C.Orderly C.Inv).Safe p (fun l _ r => r = .ok () → Settled p l)
      (.afterRead p exch) s₀
      (attemptMessageDelivery C.ns exch (C.elementOf p) (partyOf p) C.name C.key).run := by
  refine Safe.seq (safe_mark fun {s t g} hat _ => ?_)
  have hwindow : ¬ (Stage.afterRead p exch).Window := by
    cases p with
    | inl i => rw [Stage.afterRead]; split <;> exact id
    | inr k => exact id
  refine hat.same (hat.inv.keep (fun _ => rfl) fun h => (hwindow (hat.ghost ▸ h)).elim) ?_
  refine Safe.seq (safe_nsKVs C.quietInv (fun _ => ?_) fun _ _ _ => nofun)
  cases hsender : exch.sender with
  | none =>
    cases p with
    | inl i => exact .ret fun _ _ => .inl (if_pos hsender)
    | inr k => exact (hself hsender).elim
  | some sender =>
    refine Safe.ite (fun hempty => ?_) fun _ => ?_
    · cases p with
      | inl i =>
        have hmem := AList.mem_lookup_iff.1 (Option.mem_def.2 hself)
        rw [isEmpty_iff.1 hempty] at hmem
        cases hmem
      | inr k => exact .ret fun _ => nofun
    cases p with
    | inl i =>
      have hseen : Stage.afterRead (Sum.inl i : ι ⊕ κ) exch = .seen := by
        simp [Stage.afterRead, hsender]
      have hlookup : exch.receivers.lookup (C.job i).elementId = some (C.receiver i) := hself
      rw [hseen]
      refine Safe.seq (.ret ?_)
      dsimp only [elementOf]
      rw [hlookup]
      refine Safe.seq (safe_deliver_self.mono fun l s r hr => ?_)
      match r with
      | .error e => exact nofun
      | .ok b =>
        obtain rfl := hr b rfl
        refine Safe.ite (fun _ => ?_) fun _ => .ret fun _ _ => .inr rfl
        exact (safe_finish id).mono fun l s r hl _ _ => .inr hl
    | inr k =>
      refine Safe.seq (Safe.seq (safe_mapOrder C.quietInv fun _ _ => .ret ?_))
      refine Safe.seq ((safe_deliver _).mono fun l s r hl => ?_)
      subst hl
      match r with
      | .error e => exact nofun
      | .ok b =>
        refine Safe.ite (fun _ => ?_) fun _ => .ret fun _ => nofun
        exact (safe_finish id).mono fun l s r hl _ => nofun

/-- **A party goes through its stages.** -/
theorem safe_handleMessageExchange :
    (natsProtocol F True C.Orderly C.Inv).Safe p (fun l _ r => r = .ok () → Settled p l) .idle s₀
      (handleMessageExchange C.ns (partyOf p) (C.setParty p) (C.elementOf p) (C.setParty p {})
        C.name C.key).run := by
  refine Safe.seq (safe_mark fun {s t g} hat _ => ⟨.entered, hat.inv.enter hat.ghost, ?_⟩)
  refine Safe.seq (safe_nsKVs C.quietInv (fun _ => ?_) fun _ _ _ => nofun)
  refine Safe.seq (safe_joinExchange.mono fun l s r hr => ?_)
  match r with
  | .error e => exact nofun
  | .ok _ =>
    obtain rfl := hr rfl
    refine Safe.seq (safe_wrap (safe_loadObj_noting C.quietInv ?_ (fun _ _ => nofun)
      fun _ _ _ => nofun))
    intro s t g entry hat hv _
    obtain ⟨hself, hinv⟩ := hat.inv.reload hat.ghost hv
    refine ⟨_, hinv, safe_wrap ((safe_attemptMessageDelivery hself).mono fun l s r hr hok => ?_)⟩
    cases r with
    | error e => cases hok
    | ok _ => exact hr rfl

theorem safe_processMessage (k : κ) : (natsProtocol F True C.Orderly C.Inv).Safe (.inr k)
      (fun l _ r => ∀ b, r = .ok b → Settled (.inr k : ι ⊕ κ) l) .idle s₀
      (processMessage C.ns ⟨C.name, C.key, C.vars k⟩).run := by
  refine Safe.seq (safe_acking (safe_handleMessageExchange.mono fun l s r _ => ?_))
  cases r with
  | error e => exact nofun
  | ok _ => exact .ret fun _ _ => nofun

theorem safe_awaitMessageProcessor (i : ι) : (natsProtocol F True C.Orderly C.Inv).Safe (.inl i)
      (fun l _ r => ∀ b, r = .ok b → Settled (.inl i : ι ⊕ κ) l) .idle s₀
      (awaitMessageProcessor C.lib C.ns (C.job i)).run := by
  refine Safe.seq (safe_acking (safe_attempt (safe_hasValidProcess C.quietInv ?_ ?_ ?_ ?_)))
  · intro s t g pi ex _ _
    refine Safe.seq (safe_acking (safe_attempt (safe_getElement C.quietInv ?_ ?_ ?_ ?_)))
    · intro s t g wf el hat hwf hel
      obtain rfl := hat.inv.known.defined i wf hwf
      obtain ⟨hmsg, hkey⟩ := C.waits i el hel
      dsimp only [Except.mapError]
      rw [hkey, hmsg]
      refine Safe.seq (.ret (Safe.seq (safe_acking (safe_wrap
        (safe_handleMessageExchange.mono fun l s r hr => ?_)))))
      cases r with
      | error e => exact nofun
      | ok _ => exact .ret fun _ _ => hr rfl
    · exact fun _ _ _ => Safe.ite (fun _ => .ret nofun) fun _ => .ret nofun
    · exact fun _ _ => Safe.ite (fun _ => .ret nofun) fun _ => .ret nofun
    · exact fun _ _ => Safe.ite (fun _ => .ret nofun) fun _ => .ret nofun
  · exact fun _ _ => .ret nofun
  · exact fun _ _ => .ret nofun
  · exact fun _ _ _ => .ret nofun

theorem safe_runs (p : ι ⊕ κ) :
    (natsProtocol F True C.Orderly C.Inv).Safe p (fun l _ r => ∀ b, r = .ok b → Settled p l) .idle
      s₀ (C.runs p) := by
  cases p with
  | inl i => exact safe_awaitMessageProcessor i
  | inr k => exact safe_processMessage k

end Handlers

end Catching

/-- **No job that waits is dropped.** In every run whose steps are orderly, a job whose handler has
returned without error has been completed or is recorded in the exchange. -/
theorem waiting_job_kept {ι κ : Type} [DecidableEq ι] [DecidableEq κ] (C : Catching ι κ)
    {F : Op → Prop} {w₀ : World} (hknown : C.Known w₀) (habsent : w₀.value C.loc = none)
    {c : Config (ι ⊕ κ) Op Ans World (Except (Bool × Err) Bool)}
    (hrun : Run (env F) (.start w₀ C.runs) c) (horderly : Guarded C.Orderly c.trace) {i : ι}
    {b : Bool} (hreturned : c.threads (.inl i) = .ret (.ok b)) :
    C.Completed i c.trace ∨ C.Recorded i c.state := by
  have hstart : (natsProtocol F True C.Orderly C.Inv).inv w₀ [] fun _ => .idle := by
    refine ⟨hknown, fun exch hexch => ?_, fun _ => trivial⟩
    rw [habsent] at hexch
    cases hexch
  obtain ⟨g, hsound⟩ := sound_of_run (sound_start hstart C.safe_runs) hrun horderly
  obtain ⟨s, -, hsettled⟩ := hsound.result hreturned
  have hparty := hsound.inv.party (.inl i)
  rcases hsettled b rfl rfl with hl | hl
  · rw [hl] at hparty
    rcases hparty i rfl with hcompleted | ⟨exch, hexch, hholds, -⟩
    exacts [.inl hcompleted, .inr ⟨exch, hexch, hholds⟩]
  · rw [hl] at hparty
    exact .inl (hparty i rfl)

/-! ### Two jobs -/

instance {ι κ : Type} (C : Catching ι κ) (p : ι ⊕ κ) (exch : Exchange) :
    Decidable (C.Holds p exch) := by
  unfold Catching.Holds
  cases p <;> infer_instance

instance {ι κ : Type} [DecidableEq ι] [DecidableEq κ] [Fintype ι] [Fintype κ] (C : Catching ι κ)
    (e : WEvent (ι ⊕ κ)) (t : List (WEvent (ι ⊕ κ))) : Decidable (C.Orderly e t) := by
  unfold Catching.Orderly
  infer_instance

instance {ι κ : Type} (C : Catching ι κ) (i : ι) (t : List (WEvent (ι ⊕ κ))) :
    Decidable (C.Completed i t) := by
  unfold Catching.Completed
  infer_instance

instance {ι κ : Type} (C : Catching ι κ) (i : ι) (w : World) : Decidable (C.Recorded i w) := by
  unfold Catching.Recorded
  infer_instance

/-- The jobs of two elements of a process, and a sender. -/
def twoElements : Catching Bool Unit where
  lib := keyLib
  ns := "default"
  name := "paid"
  key := "order"
  job := receiveJob
  workflow _ := receiveWorkflow
  vars _ := []
  waits i el hel := by
    obtain rfl : receiveTask (receiverName i) = el := by
      cases i <;> exact Option.some.inj hel
    exact ⟨rfl, rfl⟩

/-- Two jobs are stored under their ids, and no others. -/
theorem stored_under_id {w : World} {ns : String} (job : Bool → WorkflowState)
    (hjob : ∀ i, w.value ⟨ns, .job, TrackingID.ID (job i).id⟩ = some (job i))
    (hother : ∀ id, (∀ i, id ≠ TrackingID.ID (job i).id) → w.value ⟨ns, .job, id⟩ = none)
    (id : String) (st : WorkflowState) (hst : w.value ⟨ns, .job, id⟩ = some st) :
    TrackingID.ID st.id = id := by
  by_cases hid : ∃ i, id = TrackingID.ID (job i).id
  · obtain ⟨i, rfl⟩ := hid
    rw [Option.mem_unique (hjob i) hst]
  · have hnone := hother id fun i hi => hid ⟨i, hi⟩
    exact absurd (hnone.symm.trans hst) nofun

theorem known_waitingWorld : twoElements.Known waitingWorld where
  defined i wf hwf := by
    cases i <;> exact (Option.some.inj hwf).symm
  stored := stored_under_id receiveJob (by rintro (_ | _) <;> rfl) fun id hid => by
    have hfirst : id ≠ "first" := hid false
    have hsecond : id ≠ "second" := hid true
    simp [waitingWorld, hfirst, hsecond]
    rfl

/-- The two receivers arrive before the sender, which serves them and deletes the exchange. -/
def receiversFirst : List ((Bool ⊕ Unit) × Choice) :=
  List.replicate 12 (.inl false, .ok) ++ List.replicate 16 (.inl true, .ok) ++
    List.replicate 22 (.inr (), .ok)

theorem waiting_job_kept_inTurn :
    ∃ c, Run (env anyFault) (.start waitingWorld twoElements.runs) c ∧
      Guarded twoElements.Orderly c.trace ∧ (∀ i, ∃ b, c.threads (.inl i) = .ret (.ok b)) ∧
      c.state.value twoElements.loc = none ∧
      ∀ i, twoElements.Completed i c.trace ∨ twoElements.Recorded i c.state := by
  obtain ⟨c, hrun, horderly, hreturned, hgone⟩ := exists_run_of_reaches anyFault
    (.start waitingWorld twoElements.runs) receiversFirst
    (fun c => Guarded twoElements.Orderly c.trace ∧
      (∀ i, ∃ b, c.threads (.inl i) = .ret (.ok b)) ∧ c.state.value twoElements.loc = none)
    (by decide +kernel)
  refine ⟨c, hrun, horderly, hreturned, hgone, fun i => ?_⟩
  obtain ⟨b, hb⟩ := hreturned i
  exact waiting_job_kept twoElements known_waitingWorld rfl hrun horderly hb

/-- The jobs of two process instances that wait at the same element. -/
def sameElementJob (i : Bool) : WorkflowState :=
  { workflowId := "workflow", executionId := "execution", processInstanceId := receiverName i
    elementId := "first", id := [receiverName i, "job of the " ++ receiverName i] }

/-- Two process instances wait at the same element, and nobody sends the message. -/
def sameElement : Catching Bool Empty where
  lib := keyLib
  ns := "default"
  name := "paid"
  key := "order"
  job := sameElementJob
  workflow _ := receiveWorkflow
  vars := nofun
  waits i el hel := by
    obtain rfl : receiveTask "first" = el := Option.some.inj hel
    exact ⟨rfl, rfl⟩

/-- The world in which the jobs of both process instances are stored. -/
def sameElementWorld : World :=
  (((((({} : World).put ⟨"default", .wfExecution, "execution"⟩ {}).put
    ⟨"default", .wfProcessInstance, "first"⟩ {}).put
    ⟨"default", .wfProcessInstance, "second"⟩ {}).put
    ⟨"default", .wf, "workflow"⟩ receiveWorkflow).put
    ⟨"default", .job, "job of the first"⟩ (sameElementJob false)).put
    ⟨"default", .job, "job of the second"⟩ (sameElementJob true)

theorem known_sameElementWorld : sameElement.Known sameElementWorld where
  defined i wf hwf := by
    cases i <;> exact (Option.some.inj hwf).symm
  stored := stored_under_id sameElementJob (by rintro (_ | _) <;> rfl) fun id hid => by
    have hfirst : id ≠ "job of the first" := hid false
    have hsecond : id ≠ "job of the second" := hid true
    simp [sameElementWorld, hfirst, hsecond]
    rfl

/-- **A job that is dropped.** Both handlers have returned without error. The second job has taken
the place of the first one in the exchange, which no message has completed. -/
theorem waiting_job_overwritten :
    sameElement.Known sameElementWorld ∧ sameElementWorld.value sameElement.loc = none ∧
    ∃ c, Run (env noFault) (.start sameElementWorld sameElement.runs) c ∧
      (∃ b, c.threads (.inl false) = .ret (.ok b)) ∧
      ¬ (sameElement.Completed false c.trace ∨ sameElement.Recorded false c.state) := by
  refine ⟨known_sameElementWorld, rfl, exists_run_of_reaches noFault _
    (List.replicate 12 (.inl false, .ok) ++ List.replicate 16 (.inl true, .ok)) _ ?_⟩
  decide +kernel

end SharWorkflow
