import SharWorkflow.Engine.Alone
import SharWorkflow.Engine.Messages

/-!
# Receivers whose jobs are gone

A task that waits for a message may be left before the message comes: its process is cancelled, or a
boundary timer fires. Its job is deleted, but the exchange still lists it as a receiver.

When the sender arrives, `attemptMessageDelivery` goes through the receivers and means to stop
quietly at one whose job is not found. But `GetJob` reports a missing job by an error of its own,
`ErrJobNotFound`, and not by the one of the store, so the test for the latter never holds. The
function fails, and those that come later in the map go without the message.

* `Ends.deliver`: all jobs are there, and all of them are completed.
* `Ends.deliver_missing`: a job is not there, and the loop fails.
* `attemptMessageDelivery_serves_iff`: **the sender serves everybody whose job exists**, and does
  not fail for the others, exactly if there are no others.
-/

namespace SharWorkflow

open Concurrent List World

variable {w : World} {ns : String}

theorem ends_getJob {id : String} {X : Prop} {Q : World → Except Err WorkflowState → Prop} :
    Ends (env noFault) X Q w (getJob ns id).run ↔
      (w.value ⟨ns, .job, id⟩ = none → Q w (.error
        (.wrap "get job failed to load workflow object" (.sentinel .jobNotFound)))) ∧
        ∀ v, w.value ⟨ns, .job, id⟩ = some v → Q w (.ok v) := by
  refine (ends_loadFor ⟨ns, .job, id⟩).trans ?_
  simp only [noFault_iff, false_imp_iff, and_true]

/-- The completion of a job that waits for a message. -/
def awaitCompletion (ns : String) (sender : Sender) (job : WorkflowState) (t : Int) : Msg :=
  ⟨ns, .jobAwaitMessageComplete, .state ({ job with vars := sender.vars }.stamped t), 0⟩

/-- Everybody among the receivers whose job exists has got a completion since `w`. -/
def Served (ns : String) (sender : Sender) (receivers : List Receiver) (w w' : World) : Prop :=
  ∃ published, w'.log = published ++ w.log ∧ ∀ recvr ∈ receivers, ∀ job,
    w.value ⟨ns, .job, recvr.id⟩ = some job →
      ∃ t, awaitCompletion ns sender job t ∈ published

variable {sender : Sender}

/-- One receiver is served, and then the others are. -/
theorem Served.cons {recvr : Receiver} {receivers : List Receiver} {w' : World}
    {job : WorkflowState} {t : Int} (hjob : w.value ⟨ns, .job, recvr.id⟩ = some job)
    (h : Served ns sender receivers (w.publish (awaitCompletion ns sender job t)) w') :
    Served ns sender (recvr :: receivers) w w' := by
  obtain ⟨published, hlog, hserved⟩ := h
  refine ⟨published ++ [awaitCompletion ns sender job t], by simp [hlog], ?_⟩
  intro recvr' hmem job' hjob'
  rcases mem_cons.1 hmem with rfl | hmem
  · obtain rfl : job = job' := Option.mem_unique hjob hjob'
    exact ⟨t, by simp⟩
  · obtain ⟨t', ht'⟩ := hserved recvr' hmem job' hjob'
    exact ⟨t', by simp [ht']⟩

/-- One turn of the loop. -/
theorem ends_deliver_cons {recvr : Receiver} {rest : List (Option Receiver)}
    {X : Prop} {Q : World → Except Err Bool → Prop} :
    Ends (env noFault) X Q w (SharWorkflow.deliver ns sender (some recvr :: rest)).run ↔
      (w.value ⟨ns, .job, recvr.id⟩ = none → Q w (.error
        (.wrap "get job failed to load workflow object" (.sentinel .jobNotFound)))) ∧
        ∀ job, w.value ⟨ns, .job, recvr.id⟩ = some job → ∀ t,
          Ends (env noFault) X Q (w.publish (awaitCompletion ns sender job t))
            (SharWorkflow.deliver ns sender rest).run := by
  have hpublish : Subject.jobAwaitMessageComplete ≠ .jobUserTaskExecute := nofun
  simp only [SharWorkflow.deliver, ends_seq, Act.deref_some, ends_pure, ends_attempt, ends_getJob,
    ends_wrap, ends_publishWorkflowState hpublish, noFault_iff, false_imp_iff, and_true]
  refine and_congr (imp_congr_right fun _ => ?_) Iff.rfl
  simp [Err.is]

theorem Ends.deliver (receivers : List Receiver)
    (hjobs : ∀ recvr ∈ receivers, w.value ⟨ns, .job, recvr.id⟩ ≠ none) :
    Ends (env noFault) False
      (fun w' r => r = .ok true ∧ Served ns sender receivers w w' ∧ ∀ l, w'.value l = w.value l) w
      (SharWorkflow.deliver ns sender (receivers.map some)).run := by
  induction receivers generalizing w with
  | nil => exact ends_pure.2 ⟨rfl, ⟨[], rfl, nofun⟩, fun _ => rfl⟩
  | cons recvr receivers ih =>
    refine ends_deliver_cons.2 ⟨fun hnone => ?_, fun job hjob t => ?_⟩
    · exact absurd hnone (hjobs recvr mem_cons_self)
    · have hrest : ∀ recvr ∈ receivers, (w.publish (awaitCompletion ns sender job t)).value
          ⟨ns, .job, recvr.id⟩ ≠ none := fun recvr hmem => hjobs recvr (mem_cons_of_mem _ hmem)
      exact (ih hrest).mono fun w' r ⟨hr, hserved, hsame⟩ => ⟨hr, hserved.cons hjob, hsame⟩

theorem Ends.deliver_missing (receivers : List Receiver)
    (hmissing : ∃ recvr ∈ receivers, w.value ⟨ns, .job, recvr.id⟩ = none) :
    Ends (env noFault) False (fun _ r => r = .error
        (.wrap "get job failed to load workflow object" (.sentinel .jobNotFound))) w
      (SharWorkflow.deliver ns sender (receivers.map some)).run := by
  induction receivers generalizing w with
  | nil => exact absurd hmissing (by simp)
  | cons recvr receivers ih =>
    refine ends_deliver_cons.2 ⟨fun _ => rfl, fun job hjob t => ih ?_⟩
    obtain ⟨recvr', hmem, hnone⟩ := hmissing
    rcases mem_cons.1 hmem with rfl | hmem
    · rw [hjob] at hnone
      cases hnone
    · exact ⟨recvr', hmem, hnone⟩

/-! ### The arrival of the sender -/

/-- The receivers of an exchange. -/
def Exchange.waiting (exchange : Exchange) : List Receiver :=
  exchange.receivers.keys.filterMap exchange.receivers.lookup

theorem Exchange.map_lookup_of_perm {exchange : Exchange} {order : List String}
    (h : order.Perm exchange.receivers.keys) :
    ∃ receivers : List Receiver, receivers.Perm exchange.waiting ∧
      order.map (fun k => exchange.receivers.lookup k) = receivers.map some := by
  refine ⟨order.filterMap exchange.receivers.lookup, h.filterMap _, ?_⟩
  have hkeys : ∀ k ∈ order, (exchange.receivers.lookup k).isSome := fun k hk =>
    AList.lookup_isSome.2 (AList.mem_keys.1 (h.mem_iff.1 hk))
  clear h
  induction order with
  | nil => rfl
  | cons k order ih =>
    obtain ⟨recvr, hrecvr⟩ := Option.isSome_iff_exists.1 (hkeys k mem_cons_self)
    simp [hrecvr, ih fun k hk => hkeys k (mem_cons_of_mem _ hk)]

/-- **The sender serves**: whoever has a job gets a completion, and the function does not fail for
a job that is not there. -/
def ServesWaiting (ns : String) (exchange : Exchange) (sender : Sender) (w w' : World)
    (r : Except Err Unit) : Prop :=
  Served ns sender exchange.waiting w w' ∧ ∀ e, r = .error e → e.is .jobNotFound = false

variable {exchange : Exchange} {sender : Sender} {receiverName messageName correlationKey : String}

/-- What follows the loop of `attemptMessageDelivery`. -/
def afterDelivery (ns : String) (exchange : Exchange) (messageName correlationKey : String) :
    Act Unit := do
  if ← Act.wrap "failed has expected receivers" (hasAllReceivers ns exchange messageName) then
    Act.wrap "error deleting exchange" (kvDelete (messageLoc ns messageName correlationKey))

/-- It publishes nothing, and does not fail for a job that is not there. -/
theorem ends_afterDelivery {w₀ : World} (h : Served ns sender exchange.waiting w₀ w) :
    Ends (env noFault) False (ServesWaiting ns exchange sender w₀) w
      (afterDelivery ns exchange messageName correlationKey).run := by
  have hreturns {w' : World} (hlog : w'.log = w.log) (r : Except Err Unit)
      (hr : ∀ e, r = .error e → e.is .jobNotFound = false) :
      ServesWaiting ns exchange sender w₀ w' r := by
    obtain ⟨published, hpublished, hserved⟩ := h
    exact ⟨⟨published, hlog.trans hpublished, hserved⟩, hr⟩
  refine ends_seq.2 (ends_wrap.2 (ends_seq.2 (ends_nsKVs.2 ⟨?_, nofun⟩)))
  refine ends_seq.2 (ends_wrap.2 (ends_loadObj.2 ⟨fun _ => ?_, fun expected _ => ?_, nofun⟩))
  · refine hreturns rfl _ fun e he => ?_
    cases he
    rfl
  · refine ends_pure.2 (ends_run_ite.2 ⟨fun _ => ?_, fun _ => ?_⟩)
    · exact ends_wrap.2 (ends_kvDelete.2 ⟨hreturns rfl _ nofun, nofun⟩)
    · exact ends_pure.2 (hreturns rfl _ nofun)

/-- What the sender's arrival comes to: the loop, in some order, and what follows it. -/
theorem ends_attemptMessageDelivery_sender {Q : World → Except Err Unit → Prop}
    (hsender : exchange.sender = some sender) (hempty : exchange.waiting = [] → Q w (.ok ()))
    (hloop : ∀ receivers : List Receiver, receivers.Perm exchange.waiting →
      Ends (env noFault) False (fun w' r => match r with
        | .ok goesOn => Ends (env noFault) False Q w'
            (if goesOn then afterDelivery ns exchange messageName correlationKey else pure ()).run
        | .error e => Q w' (.error e)) w
      (SharWorkflow.deliver ns sender (receivers.map some)).run) :
    Ends (env noFault) False Q w
      (attemptMessageDelivery ns exchange receiverName .sender messageName correlationKey).run := by
  refine ends_seq.2 (ends_mark.2 (ends_seq.2 (ends_nsKVs.2 ⟨?_, nofun⟩)))
  rw [hsender]
  refine ends_run_ite.2 ⟨fun hentries => ends_pure.2 (hempty ?_), fun _ => ?_⟩
  · simp [Exchange.waiting, AList.keys, isEmpty_iff.1 hentries]
  · refine ends_seq.2 (ends_seq.2 (ends_mapOrder.2 fun order horder => ends_pure.2 ?_))
    obtain ⟨receivers, hperm, hmap⟩ := Exchange.map_lookup_of_perm horder
    rw [hmap]
    refine ends_seq.2 ((hloop receivers hperm).mono fun w' r hr => ?_)
    cases r with
    | ok goesOn => exact hr
    | error e => exact hr

/-- **Who is served.** In every order of the map, the sender's arrival gives everybody whose job
exists a completion and does not fail for a job that is not there, exactly if all the jobs are
there. -/
theorem attemptMessageDelivery_serves_iff (hsender : exchange.sender = some sender) :
    Ends (env noFault) False (ServesWaiting ns exchange sender w) w
        (attemptMessageDelivery ns exchange receiverName .sender messageName correlationKey).run ↔
      ∀ recvr ∈ exchange.waiting, w.value ⟨ns, .job, recvr.id⟩ ≠ none := by
  constructor
  · -- with a job that is not there every execution ends in an error that says so
    intro hserves recvr hmem hnone
    have hfails : Ends (env noFault) False (fun _ r => r = .error
        (.wrap "get job failed to load workflow object" (.sentinel .jobNotFound))) w
        (attemptMessageDelivery ns exchange receiverName .sender messageName
          correlationKey).run := by
      refine ends_attemptMessageDelivery_sender hsender (fun hempty => ?_) fun receivers hperm => ?_
      · rw [hempty] at hmem
        cases hmem
      · refine (Ends.deliver_missing receivers ⟨recvr, hperm.mem_iff.2 hmem, hnone⟩).mono ?_
        rintro w' r rfl
        rfl
    obtain ⟨w', r, hexec, hr⟩ := hserves.can
    have hfound := hr.2 _ (hfails.exec hexec)
    simp [Err.is] at hfound
  · intro hjobs
    refine ends_attemptMessageDelivery_sender hsender (fun hempty => ?_) fun receivers hperm => ?_
    · exact ⟨⟨[], rfl, by simp [hempty]⟩, nofun⟩
    · have hall : ∀ recvr ∈ receivers, w.value ⟨ns, .job, recvr.id⟩ ≠ none := fun recvr hmem =>
        hjobs recvr (hperm.mem_iff.1 hmem)
      refine (Ends.deliver receivers hall).mono ?_
      rintro w' r ⟨rfl, ⟨published, hlog, hserved⟩, -⟩
      exact ends_afterDelivery
        ⟨published, hlog, fun recvr hmem => hserved recvr (hperm.mem_iff.2 hmem)⟩

/-- Two tasks wait for the message. -/
def twoWaiting : Exchange where
  sender := some { vars := [1], correlationKey := "7" }
  receivers := (AList.singleton "order" ⟨"first", "7"⟩).insert "payment" ⟨"second", "7"⟩

/-- Where the job of the second one is stored. -/
abbrev secondJob : Loc := ⟨"default", .job, "second"⟩

theorem attemptMessageDelivery_serves_both : Ends (env noFault) False
      (ServesWaiting "default" twoWaiting { vars := [1], correlationKey := "7" }
        ((({} : World).put ⟨"default", .job, "first"⟩ {}).put secondJob {}))
      ((({} : World).put ⟨"default", .job, "first"⟩ {}).put secondJob {})
      (attemptMessageDelivery "default" twoWaiting "" .sender "paid" "7").run := by
  refine (attemptMessageDelivery_serves_iff rfl).2 fun recvr hmem => ?_
  have hwaiting : twoWaiting.waiting = [⟨"second", "7"⟩, ⟨"first", "7"⟩] := rfl
  rw [hwaiting, List.mem_pair] at hmem
  rcases hmem with rfl | rfl
  · decide
  · decide

/-- The delivery has failed for want of a job. -/
def lacksJob : Except Err Unit → Bool
  | .ok _ => false
  | .error e => e.is .jobNotFound

/-- **A waiting task goes without the message.** The job of the first receiver is gone. It comes
first in the map, the function fails, and the second one, whose job exists, gets nothing. -/
theorem waiting_job_not_served :
    ∃ w' e, Exec (env noFault) (({} : World).put secondJob {})
        (attemptMessageDelivery "default" twoWaiting "" .sender "paid" "7").run w' (.error e) ∧
      e.is .jobNotFound = true ∧ w'.log = [] ∧
      (({} : World).put secondJob {}).value secondJob ≠ none := by
  obtain ⟨w', r, hexec, htest⟩ := exists_exec_of_reaches noFault
    (({} : World).put secondJob {})
    (attemptMessageDelivery "default" twoWaiting "" .sender "paid" "7").run
    [.ok, .ok, .order ["order", "payment"], .ok, .ok]
    (fun w' r => w'.log.isEmpty && lacksJob r) (by decide +kernel)
  rw [Bool.and_eq_true, List.isEmpty_iff] at htest
  cases r with
  | ok _ => cases htest.2
  | error e => exact ⟨w', e, hexec, htest.2, htest.1, by decide⟩

end SharWorkflow
