import SharWorkflow.Nats.Util

/-!
# Protocols over the store

How the store moves, and what a thread can conclude from an entry it has read.

* `World.Later`: revisions only grow, and a location whose revision has not changed holds the
  object it held. Every call follows it (`World.later_of_env`).
* `natsProtocol`: the protocols of this development, with `World.Later` as the rely.
* `IsQuiet`, `QuietInv`: calls that change nothing, and invariants that take no notice of them.
  The rules for reads (`safe_loadObj`) are stated for such invariants.
* `At`, `Restores`, `Faulted`: the vocabulary of the rules. A rule has one hypothesis for each way
  its program can end: what a thread that is `At` a world must show there. A call with an effect
  must `Restores` the invariant, and a call that fails leaves its event behind (`Faulted`).
* `safe_updateKV`: **the optimistic update loop is one atomic step**. Whatever other threads do,
  a thread that runs `updateKV` either fails or takes, at one point of its own, a stored object
  `v` to `f v`.
-/

namespace SharWorkflow

open Concurrent Protocol World Err

/-! ### What a call does -/

/-- The calls that change neither the store, nor the log, nor the cache: reads, and calls that
are answered by an error. -/
def IsQuiet : (o : Op) → Ans o → Prop
  | .put _ _, r => ∃ e, r = .error e
  | .create _ _, r => ∃ e, r = .error e
  | .update _ _ _, r => ∃ e, r = .error e
  | .delete _, r => ∃ e, r = .error e
  | .publish _, r => ∃ e, r = .error e
  | .cacheSet _ _, _ => False
  | .mark _, _ => False
  | _, _ => True

variable {F : Op → Prop} {o : Op} {w w' s s' : World} {r : Ans o}

namespace World

/-- **What a call does to the world**: a quiet one leaves it alone, and any other one does what it
is for. -/
inductive Effect (w : World) : (o : Op) → Ans o → World → Prop
  | quiet {o : Op} {r : Ans o} (h : IsQuiet o r) : Effect w o r w
  | put (l : Loc) (v : l.Val) : Effect w (.put l v) (.ok ()) (w.put l v)
  | create (l : Loc) (v : l.Val) : Effect w (.create l v) (.ok ()) (w.put l v)
  | update (l : Loc) (v : l.Val) (rev : Nat) : Effect w (.update l v rev) (.ok ()) (w.put l v)
  | delete (l : Loc) : Effect w (.delete l) (.ok ()) (w.clear l)
  | publish (m : Msg) : Effect w (.publish m) (.ok ()) (w.publish m)
  | newId (id : String) : Effect w .newId id { w with ids := id :: w.ids }
  | cacheSet (key : String) (wf : Workflow) : Effect w (.cacheSet key wf) ()
      { w with cache := Function.update w.cache key (some wf) }
  | cacheLost (key : String) (wf : Workflow) : Effect w (.cacheSet key wf) () w
  | createConsumer (durable : String) (filter : Subject) :
      Effect w (.createConsumer durable filter) (.ok ()) (w.createConsumer durable)
  | ackEntry (durable : String) : Effect w (.ackEntry durable) (.ok ()) (w.ackEntry durable)
  | mark (f : String) : Effect w (.mark f) () w

/-- Every answer of the world has one of these effects. -/
theorem effect_of_env (h : env F o w r w') : w.Effect o r w' := by
  cases o with
  | kvsFor ns | get l | mapOrder keys | cacheGet key | searchKeys ns b pre | keys ns b
  | fetch durable filter | ensureBucket name => exact h.1 ▸ .quiet trivial
  | put l v | delete l | publish m =>
    rcases h with ⟨rfl, rfl⟩ | ⟨rfl, -, text, rfl⟩
    · constructor
    · exact .quiet ⟨_, rfl⟩
  | create l v | update l v rev =>
    rcases h with ⟨-, rfl, rfl⟩ | ⟨-, rfl, rfl⟩ | ⟨rfl, -, text, rfl⟩
    · constructor
    · exact .quiet ⟨_, rfl⟩
    · exact .quiet ⟨_, rfl⟩
  | createConsumer durable filter | ackEntry durable =>
    rcases h with ⟨rfl, rfl⟩ | ⟨rfl, -⟩
    · constructor
    · exact .quiet trivial
  | newId => exact h.2 ▸ .newId r
  | cacheSet key wf =>
    rcases h with rfl | rfl
    exacts [.cacheLost key wf, .cacheSet key wf]
  | now => exact (show w' = w from h) ▸ .quiet trivial
  | mark f => exact (show w' = w from h) ▸ .mark f
  | panic => exact r.elim

/-- The world has moved from `w` to `w'`. -/
def Later (w w' : World) : Prop :=
  ∀ l, w.revision l ≤ w'.revision l ∧ (w.revision l = w'.revision l → w.value l = w'.value l)

theorem later_refl (w : World) : Later w w := fun _ => ⟨le_rfl, fun _ => rfl⟩

theorem later_trans {w w' w'' : World} (h : Later w w') (h' : Later w' w'') : Later w w'' := by
  intro l
  obtain ⟨hle, heq⟩ := h l
  obtain ⟨hle', heq'⟩ := h' l
  refine ⟨Nat.le_trans hle hle', fun hrev => ?_⟩
  have hmid : w.revision l = w'.revision l := by omega
  rw [heq hmid, heq' (by omega)]

/-- A write moves the world forward. -/
theorem later_put (w : World) (l : Loc) (v : l.Val) : Later w (w.put l v) := by
  intro l'
  by_cases h : l' = l
  · subst h
    simp
  · simp [h]

theorem later_clear (w : World) (l : Loc) : Later w (w.clear l) := by
  intro l'
  by_cases h : l' = l
  · subst h
    simp
  · simp [h]

/-- Every call moves the world forward. -/
theorem later_of_env (h : env F o w r w') : Later w w' := by
  cases effect_of_env h with
  | put l v | create l v | update l v => exact later_put w l v
  | delete l => exact later_clear w l
  | _ => exact fun _ => ⟨le_rfl, fun _ => rfl⟩

/-- An id that was issued stays so. -/
theorem ids_subset_of_env (h : env F o w r w') : w.ids ⊆ w'.ids := by
  cases effect_of_env h with
  | newId => exact List.subset_cons_self _ _
  | _ => exact List.Subset.refl _

end World

variable {ι L : Type}

/-- An event of a thread of the engine. -/
abbrev WEvent (ι : Type) : Type := Event ι Op Ans World

/-- A condition on an event and the trace before it. -/
abbrev WGuard (ι : Type) : Type := WEvent ι → List (WEvent ι) → Prop

/-- An invariant of the world, the trace and the ghost values of the threads. -/
abbrev WInv (ι L : Type) : Type := World → List (WEvent ι) → (ι → L) → Prop

/-- The protocol with the given faults, condition on events and invariant. Threads may panic only
if `X` holds. -/
def natsProtocol (F : Op → Prop) (X : Prop) (guard : WGuard ι) (inv : WInv ι L) :
    Protocol ι Op Ans World L where
  env := env F
  allowed := fun o => o = .panic → X
  guard := guard
  inv := inv
  rely := Later
  rely_refl := World.later_refl
  rely_trans := World.later_trans
  rely_env := later_of_env

/-! ### Quiet events -/

/-- A quiet call leaves the store alone. -/
theorem World.store_of_quiet (h : env F o w r w') (hquiet : IsQuiet o r) :
    w'.store = w.store := by
  cases effect_of_env h with
  | put | create | update | delete =>
    obtain ⟨e, he⟩ := hquiet
    cases he
  | _ => rfl

/-- A quiet call leaves every object alone. -/
theorem World.value_of_quiet (h : env F o w r w') (hquiet : IsQuiet o r) (l : Loc) :
    w'.value l = w.value l := by
  rw [World.value, store_of_quiet h hquiet, World.value]

/-- Nothing but a call for it puts a definition into the cache. -/
theorem World.cache_of_env (h : env F o w r w') (hcache : ∀ key wf, o ≠ .cacheSet key wf) :
    w'.cache = w.cache := by
  cases effect_of_env h with
  | cacheSet key wf => exact absurd rfl (hcache key wf)
  | _ => rfl

theorem World.cache_of_quiet (h : env F o w r w') (hquiet : IsQuiet o r) :
    w'.cache = w.cache := by
  refine cache_of_env h ?_
  rintro key wf rfl
  exact hquiet

/-- The invariant takes no notice of quiet events. -/
def QuietInv (F : Op → Prop) (I : WInv ι L) : Prop :=
  ∀ {i s t g o} {r : Ans o} {s'}, I s t g → env F o s r s' → IsQuiet o r →
    I s' (⟨i, s, o, r⟩ :: t) g

/-! ### The vocabulary of the rules -/

/-- The call was answered by a failure. -/
def isFailure : (o : Op) → Ans o → Bool
  | .kvsFor _, .error (.nats _) => true
  | .get _, .error (.nats _) => true
  | .put _ _, .error (.nats _) => true
  | .create _ _, .error (.nats _) => true
  | .update _ _ _, .error (.nats _) => true
  | .delete _, .error (.nats _) => true
  | .publish _, .error (.nats _) => true
  | .searchKeys _ _ _, .error (.nats _) => true
  | .keys _ _, .error (.nats _) => true
  | .createConsumer _ _, .error (.nats _) => true
  | .fetch _ _, .error (.nats _) => true
  | .ackEntry _, .error (.nats _) => true
  | .ensureBucket _, .error (.nats _) => true
  | _, _ => false

/-- A read of the location `l`. -/
def isReadAt (l : Loc) : Op → Bool
  | .get l' => l' = l
  | _ => false

/-- The call is an unconditional write at `l`. -/
def isPutAt (l : Loc) : Op → Bool
  | .put l' _ => l' = l
  | _ => false

/-- The call is a conditional write at `l`, and it has gone through. -/
def isCommitAt (l : Loc) : (o : Op) → Ans o → Bool
  | .update l' _ _, .ok _ => l' = l
  | _, _ => false

/-- The call is a deletion at `l`, and it has gone through. -/
def isDeleteAt (l : Loc) : (o : Op) → Ans o → Bool
  | .delete l', .ok _ => l' = l
  | _, _ => false

/-- The call is a write at `l` of any kind, and it has gone through. -/
def isStoreAt (l : Loc) : (o : Op) → Ans o → Bool
  | .put l' _, .ok _ => l' = l
  | .create l' _, .ok _ => l' = l
  | .update l' _ _, .ok _ => l' = l
  | _, _ => false

/-- A quiet call writes nothing. -/
theorem isStoreAt_of_quiet (h : IsQuiet o r) (l : Loc) : isStoreAt l o r = false := by
  cases o with
  | put | create | update =>
    obtain ⟨e, rfl⟩ := h
    rfl
  | _ => rfl

/-- A quiet call deletes nothing. -/
theorem isDeleteAt_of_quiet (h : IsQuiet o r) (l : Loc) : isDeleteAt l o r = false := by
  cases o with
  | delete =>
    obtain ⟨e, rfl⟩ := h
    rfl
  | _ => rfl

/-- A write leaves an object behind. -/
theorem World.value_of_store (h : env F o s r s') {l : Loc} (hstore : isStoreAt l o r = true) :
    s'.value l ≠ none := by
  cases effect_of_env h with
  | quiet hquiet => cases (isStoreAt_of_quiet hquiet l).symm.trans hstore
  | put | create | update =>
    cases of_decide_eq_true hstore
    simp
  | _ => cases hstore

/-- A deletion leaves no object behind. -/
theorem World.value_of_delete (h : env F o s r s') {l : Loc} (hdelete : isDeleteAt l o r = true) :
    s'.value l = none := by
  cases effect_of_env h with
  | quiet hquiet => cases (isDeleteAt_of_quiet hquiet l).symm.trans hdelete
  | delete =>
    cases of_decide_eq_true hdelete
    simp
  | _ => cases hdelete

/-- Any other call leaves the object at a location alone. -/
theorem World.value_of_other (h : env F o s r s') {l : Loc} (hstore : isStoreAt l o r = false)
    (hdelete : isDeleteAt l o r = false) : s'.value l = s.value l := by
  cases effect_of_env h with
  | put l' v | create l' v | update l' v =>
    exact put_value_of_ne s v (Ne.symm (of_decide_eq_false hstore))
  | delete l' => exact clear_value_of_ne s (Ne.symm (of_decide_eq_false hdelete))
  | _ => rfl

/-- What is stored stays unless it is deleted. -/
theorem World.value_ne_none_of_env (h : env F o s r s') {l : Loc}
    (hdelete : isDeleteAt l o r = false) (hl : s.value l ≠ none) : s'.value l ≠ none := by
  by_cases hstore : isStoreAt l o r = true
  · exact value_of_store h hstore
  · rwa [value_of_other h (Bool.eq_false_of_not_eq_true hstore) hdelete]

/-- The thread `i` with ghost value `l`, which last saw `s₀`, finds the world `s` with the
invariant. -/
structure At (I : WInv ι L) (i : ι) (l : L) (s₀ s : World) (t : List (WEvent ι)) (g : ι → L) :
    Prop where
  inv : I s t g
  ghost : g i = l
  later : Later s₀ s

variable {I : WInv ι L} {t : List (WEvent ι)} {g : ι → L}

/-- What was last seen may be an earlier world. -/
theorem At.from_earlier {i : ι} {l : L} {s₀ s₁ s : World} (h : At I i l s₁ s t g)
    (hlater : Later s₀ s₁) : At I i l s₀ s t g :=
  ⟨h.inv, h.ghost, later_trans hlater h.later⟩

/-- After the event `e`, which leads to the world `s'`, the invariant holds again with a new ghost
value of the thread, and `Q` holds of that value. -/
def Restores [DecidableEq ι] (I : WInv ι L) (g : ι → L) (e : WEvent ι) (t : List (WEvent ι))
    (s' : World) (Q : L → Prop) : Prop :=
  ∃ l', I s' (e :: t) (Function.update g e.thread l') ∧ Q l'

/-- The ghost value stays as it is. -/
theorem At.same [DecidableEq ι] {i : ι} {l : L} {s₀ s s₁ s' : World} {Q : L → Prop}
    (hat : At I i l s₀ s t g) (h : I s' (⟨i, s₁, o, r⟩ :: t) g) (hQ : Q l) :
    Restores I g ⟨i, s₁, o, r⟩ t s' Q :=
  ⟨l, by rwa [← hat.ghost, Function.update_eq_self], hQ⟩

theorem Restores.imp [DecidableEq ι] {e : WEvent ι} {s' : World} {Q Q' : L → Prop}
    (h : Restores I g e t s' Q) (hQ : ∀ {l}, Q l → Q' l) : Restores I g e t s' Q' := by
  obtain ⟨l', hI', hl'⟩ := h
  exact ⟨l', hI', hQ hl'⟩

/-- A quiet event. -/
theorem Restores.quiet [DecidableEq ι] (hI : QuietInv F I) {i : ι} {l : L} {s₀ s s' : World}
    {Q : L → Prop} (hat : At I i l s₀ s t g) (henv : env F o s r s') (hquiet : IsQuiet o r)
    (hQ : Q l) :
    Restores I g ⟨i, s, o, r⟩ t s' Q :=
  hat.same (hI hat.inv henv hquiet) hQ

/-- A call of the thread `i` in the world `s` has failed. -/
def Faulted (F : Op → Prop) (G : WGuard ι) (i : ι) (s : World) (t : List (WEvent ι)) : Prop :=
  ∃ (o : Op) (r : Ans o), F o ∧ isFailure o r = true ∧ G ⟨i, s, o, r⟩ t

theorem not_faulted_noFault {G : WGuard ι} {i : ι} {s : World} : ¬ Faulted noFault G i s t :=
  fun ⟨_, _, h, _⟩ => h

/-- What a thread has to show where an object is found. -/
def IfFound (I : WInv ι L) (i : ι) (l : L) (s₀ : World) (loc : Loc)
    (Q : L → World → Except Err loc.Val → Prop) : Prop :=
  ∀ {s t g v}, At I i l s₀ s t g → s.value loc = some v → Q l s (.ok v)

/-- What a thread has to show where no object is found. -/
def IfMissing {α : Type} (I : WInv ι L) (i : ι) (l : L) (s₀ : World)
    (loc : Loc) (e : Err) (Q : L → World → Except Err α → Prop) : Prop :=
  ∀ {s t g}, At I i l s₀ s t g → s.value loc = none → Q l s (.error e)

/-- What a thread has to show where a call has failed. -/
def IfFailed {α : Type} (F : Op → Prop) (G : WGuard ι) (I : WInv ι L) (i : ι) (l : L) (s₀ : World)
    (Q : L → World → Except Err α → Prop) : Prop :=
  ∀ {s t g e}, At I i l s₀ s t g → Faulted F G i s t → e.Plain → Q l s (.error e)

/-- What a thread has to show where a call has had its effect `f`. -/
def IfDone [DecidableEq ι] (G : WGuard ι) (I : WInv ι L) (i : ι) (l : L) (s₀ : World) (o : Op)
    (r : Ans o) (f : World → World) (Q : L → World → Prop) : Prop :=
  ∀ {s t g}, At I i l s₀ s t g → G ⟨i, s, o, r⟩ t →
    Restores I g ⟨i, s, o, r⟩ t (f s) fun l' => Q l' (f s)

section Rules

variable [DecidableEq ι] {F : Op → Prop} {X : Prop} {G : WGuard ι} {I : WInv ι L} {i : ι} {l : L}
  {s₀ : World} {α : Type}

/-- The call rule. -/
theorem safe_call {Q : L → World → α → Prop} {k : Ans o → P α} (hpanic : o ≠ .panic)
    (h : ∀ {s t g r s'}, At I i l s₀ s t g → env F o s r s' → G ⟨i, s, o, r⟩ t →
      Restores I g ⟨i, s, o, r⟩ t s' fun l' => (natsProtocol F X G I).Safe i Q l' s' (k r)) :
    (natsProtocol F X G I).Safe i Q l s₀ (.call o k) :=
  Safe.call (fun h => absurd h hpanic) fun _ _ _ hinv hl hlater _ _ henv hguard =>
    h ⟨hinv, hl, hlater⟩ henv hguard

/-- **Quiet calls** leave the invariant and the ghost value as they are. -/
theorem safe_quiet {Q : L → World → α → Prop} {k : Ans o → P α} (hI : QuietInv F I)
    (hquiet : ∀ r, IsQuiet o r) (hpanic : o ≠ .panic)
    (h : ∀ {s t g r s'}, At I i l s₀ s t g → env F o s r s' → G ⟨i, s, o, r⟩ t →
      (natsProtocol F X G I).Safe i Q l s' (k r)) :
    (natsProtocol F X G I).Safe i Q l s₀ (.call o k) :=
  safe_call hpanic fun {_ _ _ r _} hat henv hguard =>
    .quiet hI hat henv (hquiet r) (h hat henv hguard)

/-! ### Errors -/

variable {Q : L → World → Except Err α → Prop} {x : Act α}

/-- A program whose error is turned into another one. -/
theorem safe_ending {ε : Type} {Q : L → World → Except ε α → Prop} {f : Err → ε}
    (h : (natsProtocol F X G I).Safe i (fun l s r => Q l s (r.mapError f)) l s₀ x.run) :
    (natsProtocol F X G I).Safe i Q l s₀ (Act.ending f x).run :=
  h.bind fun _ _ r hr => match r with
    | .ok _ => .ret hr
    | .error _ => .ret hr

theorem safe_wrap {text : String}
    (h : (natsProtocol F X G I).Safe i (fun l s r => Q l s (r.mapError (.wrap text))) l s₀ x.run) :
    (natsProtocol F X G I).Safe i Q l s₀ (Act.wrap text x).run :=
  safe_ending h

theorem safe_mapError {f : Err → Err}
    (h : (natsProtocol F X G I).Safe i (fun l s r => Q l s (r.mapError f)) l s₀ x.run) :
    (natsProtocol F X G I).Safe i Q l s₀ (Act.mapError f x).run :=
  safe_ending h

theorem safe_attempt {Q : L → World → Except Err (Except Err α) → Prop}
    (h : (natsProtocol F X G I).Safe i (fun l s r => Q l s (.ok r)) l s₀ x.run) :
    (natsProtocol F X G I).Safe i Q l s₀ (Act.attempt x).run :=
  h.bind fun _ _ _ hr => .ret hr

/-- The outcome of `Act.optional`. -/
def optionalResult (absent : List Sentinel) : Except Err α → Except Err (Option α)
  | .ok a => .ok (some a)
  | .error e => if absent.any e.is then .ok none else .error e

theorem safe_acking {Q : L → World → Except (Bool × Err) α → Prop} {ack : Bool}
    (h : (natsProtocol F X G I).Safe i (fun l s r => Q l s (r.mapError (Prod.mk ack))) l s₀ x.run) :
    (natsProtocol F X G I).Safe i Q l s₀ (Act.acking ack x).run :=
  safe_ending h

/-- A panic is never answered. -/
theorem safe_panic (hX : X) : (natsProtocol F X G I).Safe i Q l s₀ (Act.panic : Act α).run :=
  Safe.call (fun _ => hX) fun _ _ _ _ _ _ r => r.elim

/-- The use of a pointer, which may be nil if threads may panic. -/
theorem safe_deref {x : Option α} (h : ∀ a, x = some a → Q l s₀ (.ok a)) (hnone : x = none → X) :
    (natsProtocol F X G I).Safe i Q l s₀ (Act.deref x).run := by
  cases x with
  | none => exact safe_panic (hnone rfl)
  | some a => exact .ret (h a rfl)

/-! ### Reads -/

variable {Q : L → World → Except Err Unit → Prop} {ns : String}

section

variable (hI : QuietInv F I) (hok : ∀ {s t g}, At I i l s₀ s t g → Q l s (.ok ()))
  (hfailed : IfFailed F G I i l s₀ Q)
include hI hok hfailed

theorem safe_kvsFor : (natsProtocol F X G I).Safe i Q l s₀ (kvsFor ns).run := by
  refine safe_quiet hI (fun _ => trivial) nofun fun hat henv hguard => .ret ?_
  obtain ⟨rfl, rfl | ⟨hF, text, rfl⟩⟩ := henv
  · exact hok hat
  · exact hfailed hat ⟨_, _, hF, rfl, hguard⟩ (plain_nats text)

theorem safe_nsKVs : (natsProtocol F X G I).Safe i Q l s₀ (nsKVs ns).run :=
  safe_wrap (safe_kvsFor hI hok fun hat hfault he => hfailed hat hfault (he.wrap _))

end

variable {loc : Loc}

/-- **A read** at which the thread may take note of what it has found. -/
theorem safe_kvGet_noting {Q : L → World → Except Err (Entry loc.Val) → Prop} (hI : QuietInv F I)
    (hok : ∀ {s t g} (entry : Entry loc.Val), At I i l s₀ s t g → s.value loc = some entry.value →
      env F (.get loc) s (.ok entry) s → Restores I g ⟨i, s, .get loc, .ok entry⟩ t s
      fun l' => Q l' s (.ok entry)) (hmissing : IfMissing I i l s₀ loc (.sentinel .keyNotFound) Q)
    (hfailed : IfFailed F G I i l s₀ Q) : (natsProtocol F X G I).Safe i Q l s₀ (kvGet loc).run := by
  refine safe_call nofun fun hat henv hguard => ?_
  have hanswer := henv
  obtain ⟨rfl, ⟨hnone, rfl⟩ | ⟨v, isNil, hsome, -, rfl⟩ | ⟨hF, text, rfl⟩⟩ := henv
  · exact .quiet hI hat hanswer trivial (.ret (hmissing hat hnone))
  · exact (hok ⟨v, isNil, _⟩ hat hsome hanswer).imp .ret
  · exact .quiet hI hat hanswer trivial
      (.ret (hfailed hat ⟨_, _, hF, rfl, hguard⟩ (plain_nats text)))

/-- The error of `LoadObj` when there is no object. -/
def loadNotFound (loc : Loc) : Err :=
  .wrap ("load object from KV " ++ loc.ns ++ "_" ++ loc.bucket.name ++ "(" ++ loc.key ++ ")")
    (.wrap "load value from KV" (.sentinel .keyNotFound))

/-- **The load of an object**, at which the thread may take note of what it has found. -/
theorem safe_loadObj_noting {Q : L → World → Except Err loc.Val → Prop} (hI : QuietInv F I)
    (hok : ∀ {s t g} (entry : Entry loc.Val), At I i l s₀ s t g → s.value loc = some entry.value →
      env F (.get loc) s (.ok entry) s → Restores I g ⟨i, s, .get loc, .ok entry⟩ t s
      fun l' => Q l' s (.ok entry.value)) (hmissing : IfMissing I i l s₀ loc (loadNotFound loc) Q)
    (hfailed : IfFailed F G I i l s₀ Q) :
    (natsProtocol F X G I).Safe i Q l s₀ (loadObj loc).run := by
  refine safe_wrap (safe_wrap (Safe.seq (safe_kvGet_noting hI ?_ ?_ ?_)))
  · intro s t g entry hat hv henv
    exact (hok entry hat hv henv).imp fun hQ => .ret hQ
  · exact fun hat hnone => hmissing hat hnone
  · exact fun hat hfault he => hfailed hat hfault ((he.wrap _).wrap _)

/-- The load of an object that the thread takes no note of. -/
theorem safe_loadObj {Q : L → World → Except Err loc.Val → Prop} (hI : QuietInv F I)
    (hok : IfFound I i l s₀ loc Q) (hmissing : IfMissing I i l s₀ loc (loadNotFound loc) Q)
    (hfailed : IfFailed F G I i l s₀ Q) :
    (natsProtocol F X G I).Safe i Q l s₀ (loadObj loc).run := by
  refine safe_loadObj_noting hI (fun entry hat hv henv => ?_) hmissing hfailed
  exact hat.same (hI hat.inv henv trivial) (hok hat hv)

theorem safe_now {Q : L → World → Except Err Int → Prop} (hI : QuietInv F I)
    (hok : ∀ {s t g time}, At I i l s₀ s t g → Q l s (.ok time)) :
    (natsProtocol F X G I).Safe i Q l s₀ now.run := by
  refine safe_quiet hI (fun _ => trivial) nofun fun {s _ _ _ s'} hat henv _ => .ret ?_
  rw [show s' = s from henv]
  exact hok hat

theorem safe_mapOrder {Q : L → World → Except Err (List String) → Prop} {keys : List String}
    (hI : QuietInv F I)
    (hok : ∀ {s t g order}, At I i l s₀ s t g → order.Perm keys → Q l s (.ok order)) :
    (natsProtocol F X G I).Safe i Q l s₀ (mapOrder keys).run := by
  refine safe_quiet hI (fun _ => trivial) nofun fun hat henv _ => .ret ?_
  obtain ⟨rfl, hperm⟩ := henv
  exact hok hat hperm

/-! ### Calls with an effect -/

/-- A mark is an event that the invariant may take note of. -/
theorem safe_mark {Q : L → World → Except Err Unit → Prop} {f : String}
    (h : ∀ {s t g}, At I i l s₀ s t g → G ⟨i, s, .mark f, ()⟩ t →
      Restores I g ⟨i, s, .mark f, ()⟩ t s fun l' => Q l' s (.ok ())) :
    (natsProtocol F X G I).Safe i Q l s₀ (mark f).run := by
  refine safe_call nofun fun {s t g r s'} hat henv hguard => ?_
  obtain ⟨l', hI', hQ⟩ := h hat hguard
  rw [show s' = s from henv]
  exact ⟨l', hI', .ret hQ⟩

variable {v : loc.Val}

section

variable (hI : QuietInv F I)
  (hdone : IfDone G I i l s₀ (.put loc v) (.ok ()) (·.put loc v) fun l s => Q l s (.ok ()))
  (hfailed : IfFailed F G I i l s₀ Q)
include hI hdone hfailed

theorem safe_kvPut : (natsProtocol F X G I).Safe i Q l s₀ (kvPut loc v).run := by
  refine safe_call nofun fun hat henv hguard => ?_
  have hanswer := henv
  rcases henv with ⟨rfl, rfl⟩ | ⟨rfl, hF, text, rfl⟩
  · exact (hdone hat hguard).imp .ret
  · exact .quiet hI hat hanswer ⟨_, rfl⟩
      (.ret (hfailed hat ⟨_, _, hF, rfl, hguard⟩ (plain_nats text)))

theorem safe_saveObj : (natsProtocol F X G I).Safe i Q l s₀ (saveObj loc v).run :=
  safe_wrap (safe_kvPut hI hdone fun hat hfault he => hfailed hat hfault (he.wrap _))

end

/-- `Create` writes the object if there is none, and else leaves the store alone. -/
theorem safe_kvCreate (hI : QuietInv F I)
    (hdone : ∀ {s t g}, At I i l s₀ s t g → s.value loc = none → G ⟨i, s, .create loc v, .ok ()⟩ t →
      Restores I g ⟨i, s, .create loc v, .ok ()⟩ t (s.put loc v) fun l' => Q l' (s.put loc v)
      (.ok ()))
    (hexists : ∀ {s t g}, At I i l s₀ s t g → s.value loc ≠ none → env F (.create loc v) s
      (.error (.sentinel .keyExists)) s → Restores I g ⟨i, s, .create loc v, .error
      (.sentinel .keyExists)⟩ t s fun l' => Q l' s (.error (.sentinel .keyExists)))
    (hfailed : IfFailed F G I i l s₀ Q) :
    (natsProtocol F X G I).Safe i Q l s₀ (kvCreate loc v).run := by
  refine safe_call nofun fun hat henv hguard => ?_
  have hanswer := henv
  rcases henv with ⟨hnone, rfl, rfl⟩ | ⟨hsome, rfl, rfl⟩ | ⟨rfl, hF, text, rfl⟩
  · exact (hdone hat hnone hguard).imp .ret
  · exact (hexists hat hsome hanswer).imp .ret
  · exact .quiet hI hat hanswer ⟨_, rfl⟩
      (.ret (hfailed hat ⟨_, _, hF, rfl, hguard⟩ (plain_nats text)))

section

variable (hI : QuietInv F I)
  (hdone : IfDone G I i l s₀ (.delete loc) (.ok ()) (·.clear loc) fun l s => Q l s (.ok ()))
  (hfailed : IfFailed F G I i l s₀ Q)
include hI hdone hfailed

theorem safe_kvDelete : (natsProtocol F X G I).Safe i Q l s₀ (kvDelete loc).run := by
  refine safe_call nofun fun hat henv hguard => ?_
  have hanswer := henv
  rcases henv with ⟨rfl, rfl⟩ | ⟨rfl, hF, text, rfl⟩
  · exact (hdone hat hguard).imp .ret
  · exact .quiet hI hat hanswer ⟨_, rfl⟩
      (.ret (hfailed hat ⟨_, _, hF, rfl, hguard⟩ (plain_nats text)))

theorem safe_delete : (natsProtocol F X G I).Safe i Q l s₀ (delete loc).run :=
  safe_wrap (safe_kvDelete hI hdone fun hat hfault he => hfailed hat hfault (he.wrap _))

end

/-! ### Updates -/

variable {f : loc.Val → loc.Val}

/-- **The update loop is atomic.** It commits in one step, from a stored `v` to `f v`
(`hcommit`). It fails when the object has disappeared (`hmissing`) or when a call fails
(`hfailed`). -/
theorem safe_updateKV {msg : loc.Val} {Q : L → World → Except Err Unit × loc.Val → Prop}
    (hI : QuietInv F I)
    (hcommit : ∀ {s t g v}, At I i l s₀ s t g → s.value loc = some v →
      G ⟨i, s, .update loc (f v) (s.revision loc), .ok ()⟩ t →
      Restores I g ⟨i, s, .update loc (f v) (s.revision loc), .ok ()⟩ t (s.put loc (f v))
        fun l' => Q l' (s.put loc (f v)) (.ok (), f v))
    (hmissing : ∀ {s t g m}, At I i l s₀ s t g → s.value loc = none →
      Q l s (.error (.wrap "get value to update" (.sentinel .keyNotFound)), m))
    (hfailed : ∀ {s t g m e}, At I i l s₀ s t g → Faulted F G i s t → e.Plain →
      Q l s (.error e, m)) :
    (natsProtocol F X G I).Safe i Q l s₀ (updateKV loc msg fun v => .ok (f v)) := by
  refine Safe.loop (P := fun l' s _ => l' = l ∧ Later s₀ s) (M := Q)
    ⟨rfl, later_refl s₀⟩ ?_ fun l s b h => .ret h
  rintro l' s₁ m ⟨rfl, hlater₁⟩
  refine safe_quiet hI (fun _ => trivial) nofun fun {s t g r s'} hat henv hguard => ?_
  have hat := hat.from_earlier hlater₁
  obtain ⟨rfl, ⟨hnone, rfl⟩ | ⟨v, isNil, hsome, -, rfl⟩ | ⟨hF, text, rfl⟩⟩ := henv
  · exact .ret (hmissing hat hnone)
  · -- the entry was read: the write succeeds only if the revision is still the one read
    refine safe_call nofun fun {s₂ t₂ g₂ r₂ s₂'} hat₂ henv₂ hguard₂ => ?_
    have hanswer := henv₂
    have hat₀ := hat₂.from_earlier hat.later
    rcases henv₂ with ⟨hrev, rfl, rfl⟩ | ⟨-, rfl, rfl⟩ | ⟨rfl, hF, text, rfl⟩
    · have hval : s₂.value loc = some v := by rw [← (hat₂.later loc).2 hrev.symm, hsome]
      rw [← hrev] at hguard₂ ⊢
      exact (hcommit hat₀ hval hguard₂).imp fun hQ => .ret hQ
    · exact .quiet hI hat₂ hanswer ⟨_, rfl⟩ (.ret ⟨rfl, hat₀.later⟩)
    · exact .quiet hI hat₂ hanswer ⟨_, rfl⟩
        (.ret (hfailed hat₀ ⟨_, _, hF, rfl, hguard₂⟩ ((plain_nats text).wrap _)))
  · exact .ret (hfailed hat ⟨_, _, hF, rfl, hguard⟩ ((plain_nats text).wrap _))

/-- Whether `UpdateObj` may take the object for absent. -/
def MaybeAbsent (loc : Loc) (s : World) : Prop :=
  s.value loc = none ∨ s.value loc = some loc.bucket.zero

/-- **Update of an object.** As `safe_updateKV`, after a save of the message if the object was
seen to be absent by an earlier read (`hput`). -/
theorem safe_updateObj {msg : loc.Val} {Q : L → World → Except Err loc.Val → Prop}
    (hI : QuietInv F I)
    (hput : ∀ {s t g}, At I i l s₀ s t g → (∃ s₁ t₁ g₁ r, At I i l s₀ s₁ t₁ g₁ ∧ MaybeAbsent loc
      s₁ ∧ G ⟨i, s₁, .get loc, r⟩ t₁) → G ⟨i, s, .put loc msg, .ok ()⟩ t → I (s.put loc msg)
      (⟨i, s, .put loc msg, .ok ()⟩ :: t) g)
    (hcommit : ∀ {s t g v}, At I i l s₀ s t g → s.value loc = some v → G ⟨i, s, .update loc (f v)
      (s.revision loc), .ok ()⟩ t → Restores I g ⟨i, s, .update loc (f v) (s.revision loc), .ok ()⟩
      t (s.put loc (f v)) fun l' => Q l' (s.put loc (f v)) (.ok (f v)))
    (hmissing : IfMissing I i l s₀ loc (.wrap "get value to update" (.sentinel .keyNotFound)) Q)
    (hfailed : IfFailed F G I i l s₀ Q) :
    (natsProtocol F X G I).Safe i Q l s₀ (updateObj loc msg fun v => .ok (f v)).run := by
  let Q' : L → World → Except Err Unit × loc.Val → Prop := fun l s r => Q l s (r.1.map fun _ => r.2)
  have hloop (s₁ : World) (hlater : Later s₀ s₁) :
      (natsProtocol F X G I).Safe i Q' l s₁ (updateKV loc msg fun v => .ok (f v)) :=
    safe_updateKV hI (fun hat => hcommit (hat.from_earlier hlater))
      (fun hat => hmissing (hat.from_earlier hlater))
      (fun hat => hfailed (hat.from_earlier hlater))
  have hsave {s₁ : World} {t₁ g₁ r} (hat₁ : At I i l s₀ s₁ t₁ g₁) (habsent : MaybeAbsent loc s₁)
      (hread : G ⟨i, s₁, .get loc, r⟩ t₁) {k : Except Err Unit → P (Except Err Unit × loc.Val)}
      (herror : ∀ e, k (.error e) = .ret (.error (.wrap "save during update object" e), msg))
      (hok : k (.ok ()) = updateKV loc msg fun v => .ok (f v)) :
      (natsProtocol F X G I).Safe i Q' l s₁ ((saveObj loc msg).run.bind k) := by
    refine Safe.bind (M := fun l' s r => (r = .ok () → l' = l ∧ Later s₀ s) ∧
      ∀ e, r = .error e → Q' l' s (.error (.wrap "save during update object" e), msg))
      (safe_saveObj hI ?_ ?_) ?_
    · intro s t g hat hguard
      have hat₀ := hat.from_earlier hat₁.later
      refine hat.same (hput hat₀ ⟨s₁, t₁, g₁, r, hat₁, habsent, hread⟩ hguard)
        ⟨fun _ => ⟨rfl, ?_⟩, by rintro e ⟨⟩⟩
      exact later_trans hat₀.later (later_put s loc msg)
    · intro s t g e hat hfault he
      refine ⟨by rintro ⟨⟩, ?_⟩
      rintro _ ⟨⟩
      exact hfailed (hat.from_earlier hat₁.later) hfault (he.wrap _)
    · rintro l' s (e | _) h
      · rw [herror]
        exact .ret (h.2 e rfl)
      · obtain ⟨rfl, hlater⟩ := h.1 rfl
        rw [hok]
        exact hloop s hlater
  refine Safe.bind (M := Q') ?_ ?_
  · refine safe_quiet hI (fun _ => trivial) (by simp) fun {s t g r s'} hat henv hguard => ?_
    obtain ⟨rfl, ⟨hnone, rfl⟩ | ⟨v, isNil, hsome, hzero, rfl⟩ | ⟨hF, text, rfl⟩⟩ := henv
    · exact hsave hat (.inl hnone) hguard (fun _ => rfl) rfl
    · cases isNil with
      | true => exact hsave hat (.inr (by rw [hsome, hzero rfl])) hguard (fun _ => rfl) rfl
      | false => exact hloop _ hat.later
    · -- a failed read is not taken for an absent object
      exact hloop _ hat.later
  · rintro l s ⟨_ | _, v⟩ hr
    exacts [.ret hr, .ret hr]

/-! ### Redelivery -/

/-- A handler is run again until it returns without error. An attempt that fails leaves the ghost
value as it was. -/
theorem safe_redeliver {handler : Handler α} {Q : L → World → α → Prop}
    (h : ∀ s, (natsProtocol F X G I).Safe i (fun l' s r => match r with
      | .ok a => Q l' s a
      | .error _ => l' = l) l s handler.run) :
    (natsProtocol F X G I).Safe i Q l s₀ (redeliver handler) := by
  refine Safe.loop (P := fun l' _ _ => l' = l) (M := Q) rfl ?_ fun l s a ha => .ret ha
  rintro l' s _ rfl
  refine (h s).bind fun l' s r hr => ?_
  cases r with
  | ok a => exact .ret hr
  | error e => exact .ret hr

end Rules

end SharWorkflow
