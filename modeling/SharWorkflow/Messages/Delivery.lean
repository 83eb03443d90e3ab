import SharWorkflow.Messages.Exchange
import Mathlib.Data.Fintype.Option

/-!
# The delivery of a message

The handlers of the two parties are followed step by step: their calls on the exchange are steps of
the rendezvous, so what holds of the rendezvous holds of every interleaving of the handlers.

The exchange is deleted by whoever sees it complete. A party that is at that moment between its
arrival and its read of the exchange finds nothing, arrives again, and may wait forever
(`message_lost`); and if the sender and a receiver see each other, both of them deliver
(`message_delivered_twice`).

* `safe_handleMessageExchange`: a party goes through the stages of the rendezvous.
* `message_delivered`: every receiver gets the message.
* `message_delivered_once`: no receiver gets it twice, and the exchange is gone.
-/

namespace SharWorkflow

open Concurrent Protocol Rendezvous World

variable {ι : Type} [DecidableEq ι] {M : Messaging ι}
  {G : WEvent (Option ι) → List (WEvent (Option ι)) → Prop}
  {allowed : State ι → Option ι → Action ι → Prop} {w w' : World} {t : List (WEvent (Option ι))}
  {A : State ι} {p : Option ι}

/-! ### The steps of a party -/

omit [DecidableEq ι] in
theorem Messaging.Alive.put (h : M.Alive w) (v : Exchange) : M.Alive (w.put M.loc v) :=
  h.congr fun l hl => put_value_of_ne _ _ fun heq => hl (by rw [heq])

omit [DecidableEq ι] in
theorem Messaging.Alive.clear (h : M.Alive w) : M.Alive (w.clear M.loc) :=
  h.congr fun l hl => clear_value_of_ne _ fun heq => hl (by rw [heq])

variable {v : Exchange} {e : Set (Option ι)}

namespace Related

theorem entry_of_absent (h : Related M allowed w t A) (hnone : w.value M.loc = none) :
    A.entry = none := by
  have hentry := h.entry
  rw [hnone] at hentry
  cases hA : A.entry with
  | none => rfl
  | some e =>
    rw [hA] at hentry
    cases hentry

theorem entry_of_present (h : Related M allowed w t A)
    (hsome : w.value M.loc = some v) : ∃ e, A.entry = some e ∧ M.Shows v e := by
  have hentry := h.entry
  rw [hsome] at hentry
  cases hA : A.entry with
  | none =>
    rw [hA] at hentry
    cases hentry
  | some e =>
    rw [hA] at hentry
    cases hentry with
    | some hshows => exact ⟨e, rfl, hshows⟩

variable (P : Permits M G allowed) (h : Related M allowed w t A)
include P h

/-- The party opens the exchange. -/
theorem create
    (hp : A.stage p = .entered) (hnone : w.value M.loc = none) :
    Related M allowed (w.put M.loc (M.setParty p {}))
      (⟨p, w, .create M.loc (M.setParty p {}), .ok ()⟩ :: t)
      { A.move p .written with entry := some {p} } := by
  have hshows : M.Shows (M.setParty p {}) {p} := by
    simpa using Messaging.shows_empty.setParty (M := M) p
  refine h.act (.create hp (h.entry_of_absent hnone)) (P.free nofun nofun) nofun (h.alive.put _) ?_
    (h.completions_cons rfl) fun _ => rfl
  rw [put_value_self]
  exact .some hshows

/-- The party finds the exchange. -/
theorem find (hp : A.stage p = .entered)
    (hsome : w.value M.loc ≠ none) :
    Related M allowed w (⟨p, w, .create M.loc v, .error (.sentinel .keyExists)⟩ :: t)
      (A.move p .found) := by
  obtain ⟨exch, hexch⟩ := Option.ne_none_iff_exists'.1 hsome
  obtain ⟨e, he, -⟩ := h.entry_of_present hexch
  exact h.act (.find hp (by rw [he]; exact Option.some_ne_none e)) (P.free nofun nofun) nofun
    h.alive h.entry (h.completions_cons rfl) fun _ => rfl

/-- The party is added to the exchange. -/
theorem update (hp : A.stage p = .found)
    (he : A.entry = some e) (hshows : M.Shows v e) (rev : Nat) :
    Related M allowed (w.put M.loc (M.setParty p v)) (⟨p, w, .update M.loc (M.setParty p v) rev, .ok
      ()⟩ :: t) { A.move p .written with entry := some (insert p e) } := by
  refine h.act (.update hp he) (P.free nofun nofun) nofun (h.alive.put _) ?_
    (h.completions_cons rfl) fun _ => rfl
  rw [put_value_self]
  exact .some (hshows.setParty p)

/-- The party reads the exchange back. -/
theorem reload (hp : A.stage p = .written)
    (he : A.entry = some e) (r : Ans (.get M.loc)) :
    Related M allowed w (⟨p, w, .get M.loc, r⟩ :: t) (A.move p (.delivering e (duties p e))) :=
  h.act (.reload hp he) (P.free nofun nofun) nofun h.alive h.entry (h.completions_cons rfl)
    fun _ => rfl

/-- The party completes the job of a receiver. -/
theorem complete
    {todo : Set ι} {i : ι} (hp : A.stage p = .delivering e todo) (hi : i ∈ todo)
    (state : WorkflowState) (hid : TrackingID.ID state.id = M.jobId i) (time embargo : Int) :
    Related M allowed (w.publish (stateMsg M.ns .jobAwaitMessageComplete state time embargo))
      (⟨p, w, .publish (stateMsg M.ns .jobAwaitMessageComplete state time embargo), .ok ()⟩ :: t)
      { A.move p (.delivering e (todo \ {i})) with
        completions := Function.update A.completions i (A.completions i + 1) } := by
  refine h.act (.complete hp hi) (P.free nofun nofun) nofun (h.alive.congr fun _ _ => rfl) h.entry
    (fun j => ?_) fun _ => rfl
  by_cases hji : j = i
  · subst hji
    simp [Messaging.completions, sent, sentState, stateMsg, hid, ← h.completions j]
  · have hne : M.jobId i ≠ M.jobId j := fun heq => hji (M.job_injective heq.symm)
    simp [Messaging.completions, sent, sentState, stateMsg, hid, hne, hji, ← h.completions j]

/-- The party deletes the exchange. -/
theorem delete
    (hp : A.stage p = .delivering Set.univ ∅) (hguard : G ⟨p, w, .delete M.loc, .ok ()⟩ t) :
    Related M allowed (w.clear M.loc) (⟨p, w, .delete M.loc, .ok ()⟩ :: t)
      { A.move p .deleted with entry := none } := by
  refine h.act (.delete hp) (P.delete h hguard) nofun h.alive.clear ?_ (h.completions_cons rfl)
    fun _ => rfl
  rw [clear_value_self]
  exact .none

end Related

theorem quietInv_exchangeI {F : Op → Prop} : QuietInv F (ExchangeI M allowed) := by
  rintro p w t g o r w' ⟨A, h, hg⟩ henv hquiet
  exact ⟨A, h.keep (h.alive.congr fun l _ => value_of_quiet henv hquiet l)
    (value_of_quiet henv hquiet _) (fun _ => isMark_of_quiet hquiet)
    (sentState_of_quiet hquiet), hg⟩

/-! ### The handlers -/

variable {l : Stage ι} {exch : Exchange}

section Handlers

variable {F : Op → Prop} {X : Prop} {s₀ : World}

variable (P : Permits M G allowed)
include P

/-- A party that has entered the exchange and has not seen it finds it, with somebody in it. -/
theorem Related.present (h : Related M allowed w t A)
    (hp : A.stage p = .found ∨ A.stage p = .written) :
    ∃ exch e, w.value M.loc = some exch ∧ A.entry = some e ∧ M.Shows exch e ∧ e ≠ ∅ := by
  have hinv := Inv.of_reachable P.removes h.reach
  have hseen : (A.stage p).seen = none := by rcases hp with hp | hp <;> rw [hp] <;> rfl
  have hwrote : ∃ q, (A.stage q).Wrote := by
    rcases hp with hp | hp
    · exact hinv.found p hp
    · exact ⟨p, by rw [hp]; trivial⟩
  obtain ⟨e, he⟩ := hinv.present hseen hwrote
  have hentry := h.entry
  rw [he] at hentry
  cases hvalue : w.value M.loc with
  | none =>
    rw [hvalue] at hentry
    cases hentry
  | some exch =>
    obtain ⟨e', he', hshows⟩ := h.entry_of_present hvalue
    rw [he] at he'
    cases he'
    obtain ⟨q, hq⟩ := hwrote
    exact ⟨exch, e, rfl, he, hshows, Set.nonempty_iff_ne_empty.1
      ⟨q, ((hinv.stored e he).2 q).2 hq⟩⟩

/-- No call fails in a handler that has entered the exchange. -/
theorem Permits.not_faulted {s t g}
    (hat : At (ExchangeI M allowed) p l s₀ s t g) (hl : l ≠ .idle) : ¬ Faulted F G p s t := by
  rintro ⟨o, r, -, hfailure, hguard⟩
  obtain ⟨A, h, rfl⟩ := hat.inv
  exact h.entered p (by rwa [hat.ghost]) (P.calm hguard hfailure)

omit P in
/-- The stages of the parties after a step of the party `p`. -/
theorem ExchangeI.of_move {g : Option ι → Stage ι} {A' : State ι} (hg : A.stage = g)
    (h : Related M allowed w t A') (hA' : A'.stage = Function.update A.stage p l) :
    ExchangeI M allowed w t (Function.update g p l) :=
  ⟨A', h, by rw [hA', hg]⟩

/-- A party is added to the exchange. -/
theorem safe_joinExchange {party : Party} :
    (natsProtocol F X G (ExchangeI M allowed)).Safe p (fun l _ r => l = .written ∧ r = .ok ())
      .entered s₀ (joinExchange M.loc party (M.setParty p) (M.setParty p {}) ({} : Exchange)).run :=
      by
  refine Safe.seq (safe_attempt (safe_kvCreate quietInv_exchangeI ?_ ?_ ?_))
  · intro s t g hat hnone _
    obtain ⟨A, h, hg⟩ := hat.inv
    exact ⟨.written, .of_move hg (h.create P (by rw [hg, hat.ghost]) hnone) rfl, .ret ⟨rfl, rfl⟩⟩
  · intro s t g hat hsome _
    obtain ⟨A, h, hg⟩ := hat.inv
    refine ⟨.found, .of_move hg (h.find P (by rw [hg, hat.ghost]) hsome) rfl, ?_⟩
    refine Safe.seq (safe_wrap (safe_updateObj quietInv_exchangeI ?_ ?_ ?_ ?_))
    · -- the exchange is not opened anew
      rintro s t g - ⟨s₁, t₁, g₁, r, hat₁, habsent, -⟩
      obtain ⟨A, h, hg⟩ := hat₁.inv
      obtain ⟨exch, e, hvalue, -, hshows, hne⟩ := h.present P (.inl (by rw [hg, hat₁.ghost]))
      rcases habsent with hnone | hzero
      · rw [hvalue] at hnone
        cases hnone
      · rw [hvalue] at hzero
        cases hzero
        exact (hne hshows.eq_empty).elim
    · intro s t g v hat hv _
      obtain ⟨A, h, hg⟩ := hat.inv
      obtain ⟨e, he, hshows⟩ := h.entry_of_present hv
      exact ⟨.written, .of_move hg (h.update P (by rw [hg, hat.ghost]) he hshows _) rfl,
        .ret ⟨rfl, rfl⟩⟩
    · intro s t g hat hnone
      obtain ⟨A, h, hg⟩ := hat.inv
      obtain ⟨exch, e, hvalue, -⟩ := h.present P (.inl (by rw [hg, hat.ghost]))
      rw [hvalue] at hnone
      cases hnone
    · exact fun hat hfault _ => (P.not_faulted hat nofun hfault).elim
  · exact fun hat hfault _ => (P.not_faulted hat nofun hfault).elim

/-- The receivers in `l` are served one after the other. -/
theorem safe_deliver (l : List ι) (hnodup : l.Nodup) :
    (natsProtocol F X G (ExchangeI M allowed)).Safe p
      (fun l _ r => l = .delivering e ∅ ∧ r = .ok true) (.delivering e { i | i ∈ l }) s₀
      (deliver M.ns M.sender (l.map fun i => some (M.receiver i))).run := by
  induction l generalizing s₀ with
  | nil => exact .ret ⟨by simp, rfl⟩
  | cons i l ih =>
    obtain ⟨hi, hnodup⟩ := List.nodup_cons.1 hnodup
    refine Safe.seq
      (.ret (Safe.seq (safe_attempt (safe_loadFor ⟨_, .job, _⟩ quietInv_exchangeI ?_ ?_ ?_))))
    · intro s t g job hat hjob
      obtain ⟨A, h, hg⟩ := hat.inv
      obtain rfl : M.stored i = job := Option.mem_unique (h.alive.stored i) hjob
      refine Safe.seq (safe_wrap (safe_publishWorkflowState quietInv_exchangeI nofun ?_ ?_))
      · intro s t g time hat _
        obtain ⟨A, h, hg⟩ := hat.inv
        have hid : TrackingID.ID (M.stored i).id = M.jobId i := by
          rw [M.stored_id, Messaging.jobId]
        have hrest : { j | j ∈ i :: l } \ {i} = { j | j ∈ l } := by
          ext j
          simp only [Set.mem_sdiff, Set.mem_ofPred_eq, List.mem_cons, Set.mem_singleton_iff]
          constructor
          · rintro ⟨hj | hj, hne⟩
            exacts [absurd hj hne, hj]
          · exact fun hj => ⟨.inr hj, fun hji => hi (hji ▸ hj)⟩
        have hcomplete := h.complete P (by rw [hg, hat.ghost]) (List.mem_cons_self : i ∈ i :: l)
          { M.stored i with vars := M.sender.vars } hid time 0
        exact ⟨.delivering e ({ j | j ∈ i :: l } \ {i}), .of_move hg hcomplete rfl,
          by rw [hrest]; exact ih hnodup⟩
      · exact fun hat hfault _ => (P.not_faulted hat nofun hfault).elim
    · intro s t g hat hnone
      obtain ⟨A, h, -⟩ := hat.inv
      exact absurd ((h.alive.stored i).symm.trans hnone) (Option.some_ne_none _)
    · exact fun hat hfault _ => (P.not_faulted hat nofun hfault).elim

omit P in
/-- The receivers that a party delivers to are the ones it has to serve. -/
theorem safe_deliveries (hshows : M.Shows exch e) (hself : p ∈ e) (hsender : none ∈ e)
    {Q : Stage ι → World → Except Err (List (Option Receiver)) → Prop}
    (hQ : ∀ s (todo : List ι), todo.Nodup → { i | i ∈ todo } = duties p e →
      Q l s (.ok (todo.map fun i => some (M.receiver i)))) :
    (natsProtocol F X G (ExchangeI M allowed)).Safe p Q l s₀
      (deliveries exch (M.elementOf p) (Messaging.partyOf p)).run := by
  match p with
  | none =>
    refine Safe.seq (safe_mapOrder quietInv_exchangeI fun hat hperm => .ret ?_)
    obtain ⟨todo, hnodup, hmem, horder⟩ := hshows.exists_order hperm
    rw [horder]
    refine hQ _ todo hnodup (Set.ext fun i => ?_)
    simpa [duties] using hmem i
  | some i =>
    have hlookup := hshows.lookup hself
    refine .ret ?_
    have hone := hQ s₀ [i] (List.nodup_singleton i) (Set.ext fun j => by
      simp [duties, hsender, eq_comm])
    simpa [Messaging.elementOf, hlookup] using hone

/-- A party that has read the exchange back delivers what it has to, and deletes the exchange if it
has seen everybody. -/
theorem safe_attemptMessageDelivery [Nonempty ι] (hshows : M.Shows exch e)
    (hself : p ∈ e) :
    (natsProtocol F X G (ExchangeI M allowed)).Safe p (fun l _ r => l.Settled ∧ r = .ok ())
      (.delivering e (duties p e)) s₀ (attemptMessageDelivery M.ns exch (M.elementOf p)
      (Messaging.partyOf p) M.name M.key).run := by
  refine Safe.seq (safe_mark fun {s t g} hat _ => ?_)
  obtain ⟨A, h, hg⟩ := hat.inv
  refine hat.same ⟨A, h.attempt (by rw [hg, hat.ghost]; exact id), hg⟩ ?_
  refine Safe.seq (safe_nsKVs quietInv_exchangeI (fun _ => ?_) fun hat hfault _ =>
    (P.not_faulted hat nofun hfault).elim)
  by_cases hsender : none ∈ e
  swap
  · -- a receiver that has not seen the sender leaves the delivery to it
    rw [hshows.noSender hsender]
    refine .ret ⟨⟨Set.eq_empty_of_forall_notMem fun i hi => ?_, fun huniv => ?_⟩, rfl⟩
    · rcases hi with ⟨rfl, -⟩ | ⟨-, hnone⟩
      exacts [hsender hself, hsender hnone]
    · exact hsender (huniv ▸ Set.mem_univ _)
  rw [hshows.sender hsender]
  refine Safe.ite (fun hempty => ?_) fun _ => ?_
  · -- the sender has seen no receiver
    have hnobody (i : ι) : some i ∉ e := by
      intro hi
      have hkey := hshows.mem_keys.2 hi
      rw [List.isEmpty_iff] at hempty
      simp [AList.keys, hempty] at hkey
    refine .ret ⟨⟨Set.eq_empty_of_forall_notMem fun i hi => ?_, fun huniv => ?_⟩, rfl⟩
    · rcases hi with ⟨-, hi⟩ | ⟨rfl, -⟩
      exacts [hnobody i hi, hnobody i hself]
    · exact hnobody (Classical.arbitrary ι) (huniv ▸ Set.mem_univ _)
  refine Safe.seq (safe_deliveries hshows hself hsender fun s₁ todo hnodup htodo => ?_)
  rw [← htodo]
  refine Safe.seq ((safe_deliver P todo hnodup).mono ?_)
  rintro l s₂ r ⟨rfl, rfl⟩
  refine Safe.ite (fun _ => ?_) fun hfalse => absurd rfl hfalse
  -- whether all expected receivers are there
  refine Safe.seq (safe_wrap (Safe.seq (safe_nsKVs quietInv_exchangeI (fun _ => ?_)
    fun hat hfault _ => (P.not_faulted hat nofun hfault).elim)))
  refine Safe.seq (safe_wrap (safe_loadObj quietInv_exchangeI ?_ ?_ fun hat hfault _ =>
    (P.not_faulted hat nofun hfault).elim))
  · intro s t g expected hat hexpected
    obtain ⟨A, h, hg⟩ := hat.inv
    obtain rfl : M.expected = expected := Option.mem_unique h.alive.expected hexpected
    refine .ret (Safe.ite (fun hall => ?_) fun hnot => ?_)
    · obtain rfl := (hshows.all_expected hsender).1 hall
      refine safe_wrap (safe_kvDelete quietInv_exchangeI ?_ fun hat hfault _ =>
        (P.not_faulted hat nofun hfault).elim)
      intro s t g hat hguard
      obtain ⟨A, h, hg⟩ := hat.inv
      exact ⟨.deleted, .of_move hg (h.delete P (by rw [hg, hat.ghost]) hguard) rfl, trivial, rfl⟩
    · exact .ret ⟨⟨rfl, fun huniv => hnot ((hshows.all_expected hsender).2 huniv)⟩, rfl⟩
  · intro s t g hat hnone
    obtain ⟨A, h, -⟩ := hat.inv
    exact absurd (h.alive.expected.symm.trans hnone) (Option.some_ne_none _)

/-- **A party goes through the stages of the rendezvous.** -/
theorem safe_handleMessageExchange [Nonempty ι] :
    (natsProtocol F X G (ExchangeI M allowed)).Safe p (fun l _ r => l.Settled ∧ r = .ok ()) .idle s₀
      (handleMessageExchange M.ns (Messaging.partyOf p) (M.setParty p) (M.elementOf p)
      (M.setParty p {}) M.name M.key).run := by
  refine Safe.seq (safe_mark fun {s t g} hat hguard => ?_)
  obtain ⟨A, h, hg⟩ := hat.inv
  refine ⟨.entered, .of_move hg (h.enter (by rw [hg, hat.ghost]) (P.enter h hguard)) rfl, ?_⟩
  refine Safe.seq (safe_nsKVs quietInv_exchangeI (fun _ => ?_) fun hat hfault _ =>
    (P.not_faulted hat nofun hfault).elim)
  refine Safe.seq ((safe_joinExchange P).mono ?_)
  rintro l s r ⟨rfl, rfl⟩
  refine Safe.seq (safe_wrap (safe_loadObj_noting quietInv_exchangeI ?_ ?_ fun hat hfault _ =>
    (P.not_faulted hat nofun hfault).elim))
  · intro s t g entry hat hv _
    obtain ⟨A, h, hg⟩ := hat.inv
    have hp : A.stage p = .written := by rw [hg, hat.ghost]
    obtain ⟨e, he, hshows⟩ := h.entry_of_present hv
    have hself : p ∈ e := by
      rw [((Inv.of_reachable P.removes h.reach).stored e he).2, hp]
      trivial
    refine ⟨.delivering e (duties p e), .of_move hg (h.reload P hp he _) rfl, safe_wrap ?_⟩
    exact (safe_attemptMessageDelivery P hshows hself).mono fun l s r hr =>
      ⟨hr.1, by rw [hr.2]; rfl⟩
  · intro s t g hat hnone
    obtain ⟨A, h, hg⟩ := hat.inv
    obtain ⟨exch, e, hvalue, -⟩ := h.present P (.inr (by rw [hg, hat.ghost]))
    rw [hvalue] at hnone
    cases hnone

/-- The sender. -/
theorem safe_processMessage [Nonempty ι] :
    (natsProtocol F X G (ExchangeI M allowed)).Safe none (fun l _ r => match r with
      | .ok _ => l.Settled
      | .error _ => l = .idle) .idle s₀ (processMessage M.ns ⟨M.name, M.key, M.vars⟩).run := by
  refine Safe.seq (safe_acking ((safe_handleMessageExchange P).mono ?_))
  rintro l s r ⟨hsettled, rfl⟩
  exact .ret hsettled

/-- A receiver. An attempt fails only before it enters the exchange. -/
theorem safe_awaitMessageProcessor [Nonempty ι] (i : ι) :
    (natsProtocol F X G (ExchangeI M allowed)).Safe (some i) (fun l _ r => match r with
      | .ok _ => l.Settled
      | .error _ => l = .idle) .idle s₀ (awaitMessageProcessor M.lib M.ns (M.job i)).run := by
  refine Safe.seq (safe_acking (safe_attempt (safe_hasValidProcess quietInv_exchangeI ?_ ?_ ?_ ?_)))
  · intro s t g pi ex _ _
    refine Safe.seq (safe_acking (safe_attempt (safe_getElement quietInv_exchangeI ?_ ?_ ?_ ?_)))
    · intro s t g wf el hat hwf hel
      obtain ⟨A, h, -⟩ := hat.inv
      obtain rfl : M.workflow i = wf := Option.mem_unique (h.alive.workflow i) hwf
      obtain rfl : M.element i = el := Option.mem_unique (M.element_found i) hel
      dsimp only [Except.mapError]
      rw [M.correlates i, M.receives i]
      refine Safe.seq (.ret (Safe.seq (safe_acking (safe_wrap
        ((safe_handleMessageExchange P).mono ?_)))))
      rintro l s r ⟨hsettled, rfl⟩
      exact .ret hsettled
    · intro s t g wf e hat hwf hunknown
      obtain ⟨A, h, -⟩ := hat.inv
      obtain rfl : M.workflow i = wf := Option.mem_unique (h.alive.workflow i) hwf
      rw [M.element_found i] at hunknown
      cases hunknown
    · intro s t g e hat hnone
      obtain ⟨A, h, -⟩ := hat.inv
      exact absurd ((h.alive.workflow i).symm.trans hnone) (Option.some_ne_none _)
    · exact fun _ _ => Safe.ite (fun _ => .ret rfl) fun _ => .ret rfl
  · intro s t g hat hnone
    obtain ⟨A, h, -⟩ := hat.inv
    exact (h.alive.execution i hnone).elim
  · intro s t g hat hnone
    obtain ⟨A, h, -⟩ := hat.inv
    exact (h.alive.processInstance i hnone).elim
  · exact fun _ _ _ => .ret rfl

/-- **A party that has returned is settled.** -/
theorem safe_runs [Nonempty ι] (p : Option ι) :
    (natsProtocol F X G (ExchangeI M allowed)).Safe p (fun l _ _ => l.Settled) .idle s₀
      (M.runs p) := by
  match p with
  | none =>
    exact safe_redeliver fun s => (safe_processMessage P).mono
      fun l s r hr => by cases r <;> exact hr
  | some i =>
    exact safe_redeliver fun s =>
      (safe_awaitMessageProcessor P i).mono fun l s r hr => by cases r <;> exact hr

/-- In every run there is a state of the rendezvous behind the exchange, in which the parties that
have returned are settled. -/
theorem exists_related [Nonempty ι] {w₀ : World} (hready : M.Ready w₀)
    {c : Config (Option ι) Op Ans World Bool} (hrun : Run (env F) (.start w₀ M.runs) c)
    (hguard : Guarded G c.trace) : ∃ A, Related M allowed c.state c.trace A ∧
      ∀ p, (∃ r, c.threads p = .ret r) → (A.stage p).Settled := by
  have hstart : (natsProtocol F True G (ExchangeI M allowed)).inv w₀ [] fun _ => .idle := by
    refine ⟨.init, ⟨.init, hready.toAlive, ?_, fun _ => rfl, fun _ h => h.elim,
      fun _ h => absurd rfl h⟩, rfl⟩
    rw [hready.absent]
    exact .none
  obtain ⟨g, hsound⟩ := sound_of_run (sound_start hstart fun p => safe_runs P p) hrun hguard
  obtain ⟨A, h, rfl⟩ := hsound.inv
  refine ⟨A, h, ?_⟩
  rintro p ⟨r, hr⟩
  obtain ⟨s, -, hsettled⟩ := hsound.result hr
  exact hsettled

end Handlers

/-! ### Every receiver gets the message -/

/-- **The condition under which nobody is forgotten.** The exchange is deleted only while no other
handler is between its call of `handleMessageExchange` and its call of `attemptMessageDelivery`,
and no call fails in a handler that has called `handleMessageExchange`. -/
def Messaging.Calm (M : Messaging ι) (e : WEvent (Option ι)) (t : List (WEvent (Option ι))) :
    Prop :=
  (isDeleteAt M.loc e.op e.answer = true →
    ∀ p, p ≠ e.thread → lastMark p t ≠ some "handleMessageExchange") ∧
  (isFailure e.op e.answer = true → lastMark e.thread t = none)

theorem Messaging.permits_calm (M : Messaging ι) : Permits M M.Calm RemovesAlone where
  removes h := h
  free {_ _ a} _ hdelete := by cases a <;> trivial
  enter _ _ := trivial
  delete h hcalm q hq hwindow := hcalm.1 (by simp [isDeleteAt]) q hq (h.window q hwindow)
  calm h hfailure := h.2 hfailure

/-- **Every receiver gets the message.** In every run of the handlers, delivered again until they
succeed, whose steps are calm, each receiver job has been completed when all handlers have
returned. -/
theorem message_delivered [Nonempty ι] (M : Messaging ι) {w₀ : World} (hready : M.Ready w₀)
    {c : Config (Option ι) Op Ans World Bool}
    (hrun : Run (env anyFault) (.start w₀ M.runs) c) (hcalm : Guarded M.Calm c.trace)
    (hreturned : ∀ p, ∃ r, c.threads p = .ret r) (i : ι) : M.completions i c.trace ≠ [] := by
  obtain ⟨A, h, hsettled⟩ := exists_related M.permits_calm hready hrun hcalm
  have hpos := (Inv.of_reachable id h.reach).completions_pos (fun p => hsettled p (hreturned p)) i
  rw [← h.completions i] at hpos
  exact List.length_pos_iff.1 hpos

/-! ### Two receivers -/

/-- The libraries, where every expression evaluates to a string that is printed as the key. -/
def keyLib : Lib where
  unmarshal _ := .ok (some ∅)
  marshal _ := .ok []
  eval _ _ := .value (.string "order")
  getVariables _ := .ok []
  atoi _ := none
  shift _ t := .ok t
  format _ := "order"

/-- A task that waits for the message. -/
def receiveTask (id : String) : Element :=
  { id := id, type := .messageIntermediateCatchEvent, msg := "paid", execute := "orderId" }

/-- The name of the first and of the second receiver. -/
def receiverName : Bool → String
  | false => "first"
  | true => "second"

theorem receiverName_injective : Function.Injective receiverName := by
  intro i j h
  cases i <;> cases j <;> simp [receiverName] at h ⊢

/-- The state with which a receiver has been started. -/
def receiveJob (i : Bool) : WorkflowState :=
  { workflowId := "workflow", executionId := "execution", processInstanceId := "instance"
    elementId := receiverName i, id := ["instance", receiverName i] }

/-- The workflow with both receivers. -/
def receiveWorkflow : Workflow :=
  { process := AList.singleton "process"
      { elements := [receiveTask "first", receiveTask "second"] } }

/-- A message for which two tasks wait. -/
def twoReceivers : Messaging Bool where
  lib := keyLib
  ns := "default"
  name := "paid"
  key := "order"
  vars := []
  job := receiveJob
  stored := receiveJob
  workflow _ := receiveWorkflow
  element i := receiveTask (receiverName i)
  expected := { messageReceiver := [{ id := "first" }, { id := "second" }] }
  element_injective := receiverName_injective
  job_injective := receiverName_injective
  stored_id _ := rfl
  element_found i := by cases i <;> rfl
  receives _ := rfl
  correlates _ := rfl
  expects k := by
    constructor
    · rintro ⟨r, hr, rfl⟩
      have hr' : r = { id := "first" } ∨ r = { id := "second" } := by simpa using hr
      rcases hr' with rfl | rfl
      exacts [⟨false, rfl⟩, ⟨true, rfl⟩]
    · rintro ⟨i, rfl⟩
      cases i
      exacts [⟨{ id := "first" }, by simp, rfl⟩, ⟨{ id := "second" }, by simp, rfl⟩]

/-- The world in which both receivers wait. -/
def waitingWorld : World :=
  ((((((({} : World).put ⟨"default", .wfExecution, "execution"⟩ {}).put
    ⟨"default", .wfProcessInstance, "instance"⟩ {}).put
    ⟨"default", .wf, "workflow"⟩ receiveWorkflow).put
    ⟨"default", .job, "first"⟩ (receiveJob false)).put
    ⟨"default", .job, "second"⟩ (receiveJob true)).put
    ⟨"default", .wfMsgTypes, "paid"⟩ twoReceivers.expected)

theorem ready_waitingWorld : twoReceivers.Ready waitingWorld where
  execution i := by cases i <;> exact Option.some_ne_none _
  processInstance i := by cases i <;> exact Option.some_ne_none _
  workflow i := by cases i <;> rfl
  stored i := by cases i <;> rfl
  expected := rfl
  absent := rfl

/-- Both receivers arrive before the sender, which serves them. -/
def inTurn : List (Option Bool × Choice) :=
  List.replicate 13 (some false, .ok) ++ List.replicate 17 (some true, .ok) ++
    List.replicate 23 (none, .ok)

instance [Fintype ι] (M : Messaging ι) (e : WEvent (Option ι)) (t : List (WEvent (Option ι))) :
    Decidable (M.Calm e t) := by
  unfold Messaging.Calm
  infer_instance

theorem message_delivered_inTurn :
    ∃ c, Run (env anyFault) (.start waitingWorld twoReceivers.runs) c ∧
      Guarded twoReceivers.Calm c.trace ∧ (∀ p, ∃ r, c.threads p = .ret r) ∧
      ∀ i, twoReceivers.completions i c.trace ≠ [] := by
  obtain ⟨c, hrun, hcalm, hreturned⟩ := exists_run_of_reaches anyFault
    (.start waitingWorld twoReceivers.runs) inTurn
    (fun c => Guarded twoReceivers.Calm c.trace ∧ ∀ p, ∃ r, c.threads p = .ret r)
    (by decide +kernel)
  exact ⟨c, hrun, hcalm, hreturned,
    message_delivered twoReceivers ready_waitingWorld hrun hcalm hreturned⟩

/-- The first receiver arrives and waits. The sender is added to the exchange; before it reads the
exchange back, the second receiver arrives, sees everybody, serves itself and deletes the exchange.
The sender finds no exchange, is delivered again and opens a new one. -/
def overtaken : List (Option Bool × Choice) :=
  List.replicate 13 (some false, .ok) ++ List.replicate 8 (none, .ok) ++
    List.replicate 24 (some true, .ok) ++ List.replicate 8 (none, .ok)

/-- **A lost message.** All handlers have returned without error, and the job of the first receiver
was never completed. -/
theorem message_lost : twoReceivers.Ready waitingWorld ∧
    ∃ c, Run (env noFault) (.start waitingWorld twoReceivers.runs) c ∧
      (∀ p, ∃ r, c.threads p = .ret r) ∧ twoReceivers.completions false c.trace = [] := by
  refine ⟨ready_waitingWorld, ?_⟩
  obtain ⟨c, hrun, hreturned, hnone⟩ := exists_run_of_reaches noFault
    (.start waitingWorld twoReceivers.runs) overtaken
    (fun c => (∀ p, ∃ r, c.threads p = .ret r) ∧
      (twoReceivers.completions false c.trace).length = 0) (by decide +kernel)
  exact ⟨c, hrun, hreturned, List.length_eq_zero_iff.1 hnone⟩

/-! ### No receiver gets the message twice -/

/-- **The condition under which nobody is served twice.** The steps are calm, and neither the sender
nor a receiver calls `handleMessageExchange` while the other side is between its call of
`handleMessageExchange` and its call of `attemptMessageDelivery`. -/
def Messaging.Apart (M : Messaging ι) (e : WEvent (Option ι)) (t : List (WEvent (Option ι))) :
    Prop :=
  M.Calm e t ∧
  (isMark "handleMessageExchange" e.op = true →
    match e.thread with
    | none => ∀ i, lastMark (some i) t ≠ some "handleMessageExchange"
    | some _ => lastMark none t ≠ some "handleMessageExchange")

theorem Messaging.permits_apart (M : Messaging ι) :
    Permits M M.Apart fun A p a => RemovesAlone A p a ∧ EntersApart A p a where
  removes h := h.1
  free {_ _ a} henter hdelete := by cases a <;> trivial
  enter {A p w t} h hapart := by
    refine ⟨trivial, ?_⟩
    have hother := hapart.2 (by simp [isMark])
    cases p with
    | none => exact fun i hwindow => hother i (h.window _ hwindow)
    | some _ => exact fun hwindow => hother (h.window _ hwindow)
  delete h hapart :=
    ⟨fun q hq hwindow => hapart.1.1 (by simp [isDeleteAt]) q hq (h.window q hwindow), trivial⟩
  calm h hfailure := h.1.2 hfailure

/-- **No receiver gets the message twice, and the exchange is gone in the end.** In every run of the
handlers, delivered again until they succeed, whose steps keep the parties apart. -/
theorem message_delivered_once [Nonempty ι] (M : Messaging ι) {w₀ : World} (hready : M.Ready w₀)
    {c : Config (Option ι) Op Ans World Bool}
    (hrun : Run (env anyFault) (.start w₀ M.runs) c)
    (hapart : Guarded M.Apart c.trace) :
    (∀ i, (M.completions i c.trace).length ≤ 1) ∧ ((∀ p, ∃ r, c.threads p = .ret r) → c.state.value
      M.loc = none) := by
  obtain ⟨A, h, hsettled⟩ := exists_related M.permits_apart hready hrun hapart
  have hinv := Inv.of_reachable And.left h.reach
  refine ⟨fun i => ?_, fun hreturned => ?_⟩
  · rw [h.completions i]
    exact (Once.of_reachable And.left And.right h.reach).atMost i
  · have hgone := hinv.entry_eq_none fun p => hsettled p (hreturned p)
    have hentry := h.entry
    rw [hgone] at hentry
    cases hvalue : c.state.value M.loc with
    | none => rfl
    | some exch =>
      rw [hvalue] at hentry
      cases hentry

instance [Fintype ι] (M : Messaging ι) (e : WEvent (Option ι)) (t : List (WEvent (Option ι))) :
    Decidable (M.Apart e t) := by
  unfold Messaging.Apart
  cases e.thread <;> infer_instance

theorem message_delivered_once_inTurn :
    ∃ c, Run (env anyFault) (.start waitingWorld twoReceivers.runs) c ∧
      Guarded twoReceivers.Apart c.trace ∧ (∀ p, ∃ r, c.threads p = .ret r) ∧
      (∀ i, (twoReceivers.completions i c.trace).length ≤ 1) ∧
      c.state.value twoReceivers.loc = none := by
  obtain ⟨c, hrun, hapart, hreturned⟩ := exists_run_of_reaches anyFault
    (.start waitingWorld twoReceivers.runs) inTurn
    (fun c => Guarded twoReceivers.Apart c.trace ∧ ∀ p, ∃ r, c.threads p = .ret r)
    (by decide +kernel)
  have honce := message_delivered_once twoReceivers ready_waitingWorld hrun hapart
  exact ⟨c, hrun, hapart, hreturned, honce.1, honce.2 hreturned⟩

/-- The first receiver and the sender both arrive before either of them reads the exchange back. -/
def bothArrive : List (Option Bool × Choice) :=
  List.replicate 10 (some false, .ok) ++ List.replicate 8 (none, .ok) ++
    List.replicate 9 (some false, .ok) ++ List.replicate 10 (none, .ok)

/-- **A message that is delivered twice.** The receiver and the sender have seen each other, and
both have completed the job. -/
theorem message_delivered_twice : twoReceivers.Ready waitingWorld ∧
    ∃ c, Run (env noFault) (.start waitingWorld twoReceivers.runs) c ∧
      (twoReceivers.completions false c.trace).length = 2 :=
  ⟨ready_waitingWorld,
    exists_run_of_reaches noFault _ bothArrive _ (by decide +kernel)⟩

end SharWorkflow
