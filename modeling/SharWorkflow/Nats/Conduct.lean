import SharWorkflow.Nats.Keeps

/-!
# The conduct of a handler

What a handler publishes, writes and deletes, as far as it can be told from its own calls. A
`Conduct` is a discipline (`Concurrent/Discipline.lean`) in terms of the store and the stream: which
messages may be published and which objects written, what is known of the objects that are read,
and whether a call may fail. The state of the conduct moves with publications, writes, deletions,
reads and failures.

The rules are weakest preconditions, tagged for `simp`: unfolding a program that does not loop turns
`Conduct.Keeps` into a condition on the objects it reads.
-/

namespace SharWorkflow

open Concurrent Discipline World

/-- What a handler may do, and what it has to reckon with. -/
structure Conduct (L : Type) where
  mayPublish : L → Msg → Prop := fun _ _ => True
  mayWrite : L → (loc : Loc) → loc.Val → Prop := fun _ _ _ => True
  mayDelete : L → Loc → Prop := fun _ _ => True
  /-- what is known of an object that is read -/
  holds : L → (loc : Loc) → loc.Val → Prop := fun _ _ _ => True
  /-- what is known of a workflow definition, from the store or from the cache -/
  defines : String → Workflow → Prop := fun _ _ => True
  holds_defines : ∀ {l ns id} {wf : Workflow}, holds l ⟨ns, .wf, id⟩ wf → defines id wf := by
    intros; trivial
  /-- what is known once a function has been marked -/
  allows : String → Prop := fun _ => True
  /-- a read may find nothing -/
  absent : L → Loc → Prop := fun _ _ => True
  /-- a call may fail -/
  faulty : L → Prop := fun _ => True
  published : L → Msg → L := fun l _ => l
  wrote : L → Loc → L := fun l _ => l
  deleted : L → Loc → L := fun l _ => l
  noted : L → Loc → L := fun l _ => l
  failed : L → L := fun l => l

namespace Conduct

variable {L α β ε : Type} (C : Conduct L)

/-- The call has failed. -/
def Failing (l : L) {γ : Type} (r : Except Err γ) (l' : L) : Prop :=
  C.faulty l ∧ (∃ text, r = .error (.nats text)) ∧ l' = C.failed l

/-- The calls that the conduct allows. -/
def may (l : L) : Op → Prop
  | .put loc v => C.mayWrite l loc v
  | .create loc v => C.mayWrite l loc v
  | .update loc v _ => C.mayWrite l loc v
  | .delete loc => C.mayDelete l loc
  | .publish m => C.mayPublish l m
  | .cacheSet id wf => C.defines id wf
  | _ => True

/-- The answers that the conduct reckons with. -/
def step (l : L) : (o : Op) → Ans o → L → Prop
  | .kvsFor _, r, l' => (r = .ok () ∧ l' = l) ∨ C.Failing l r l'
  | .get loc, r, l' =>
      (∃ entry, r = .ok entry ∧ C.holds l loc entry.value ∧ l' = C.noted l loc) ∨
        (C.absent l loc ∧ r = .error (.sentinel .keyNotFound) ∧ l' = l) ∨ C.Failing l r l'
  | .put loc _, r, l' => (r = .ok () ∧ l' = C.wrote l loc) ∨ C.Failing l r l'
  | .create loc _, r, l' =>
      (r = .ok () ∧ l' = C.wrote l loc) ∨ (r = .error (.sentinel .keyExists) ∧ l' = l) ∨
        C.Failing l r l'
  | .update loc _ _, r, l' =>
      (r = .ok () ∧ l' = C.wrote l loc) ∨ (r = .error (.sentinel .wrongLastSequence) ∧ l' = l) ∨
        C.Failing l r l'
  | .delete loc, r, l' => (r = .ok () ∧ l' = C.deleted l loc) ∨ C.Failing l r l'
  | .publish m, r, l' => (r = .ok () ∧ l' = C.published l m) ∨ C.Failing l r l'
  | .newId, r, l' => r ≠ "" ∧ ',' ∉ r.toList ∧ l' = l
  | .now, _, l' => l' = l
  | .mapOrder keys, r, l' => r.Perm keys ∧ l' = l
  | .cacheGet id, r, l' => (∀ wf, r = some wf → C.defines id wf) ∧ l' = l
  | .cacheSet _ _, _, l' => l' = l
  | .searchKeys _ _ _, r, l' => ((∃ keys, r = .ok keys) ∧ l' = l) ∨ C.Failing l r l'
  | .keys _ _, r, l' =>
      ((∃ keys, r = .ok keys) ∧ l' = l) ∨ (r = .error (.sentinel .noKeysFound) ∧ l' = l) ∨
        C.Failing l r l'
  | .fetch _ _, _, l' => l' = l
  | .ackEntry _, _, l' => l' = l
  | .createConsumer _ _, r, l' => (r = .ok () ∧ l' = l) ∨ C.Failing l r l'
  | .ensureBucket _, r, l' => (r = .ok () ∧ l' = l) ∨ C.Failing l r l'
  | .mark f, _, l' => C.allows f ∧ l' = l
  | .panic, r, _ => r.elim

/-- The discipline of the conduct. -/
def discipline : Discipline Op Ans L := ⟨C.may, C.step⟩

/-- The program keeps to the conduct, and its results meet `Q`. -/
abbrev Keeps (Q : L → α → Prop) (l : L) (p : P α) : Prop := C.discipline.Keeps Q l p

variable {C} {l : L}

/-! ### Programs -/

theorem keeps_perform {o : Op} {Q : L → Ans o → Prop} :
    C.Keeps Q l (Prog.perform o) ↔ C.may l o ∧ ∀ r l', C.step l o r l' → Q l' r := by
  refine keeps_call.trans (and_congr Iff.rfl ?_)
  exact forall_congr' fun r => forall_congr' fun l' => imp_congr Iff.rfl keeps_ret

variable {Q : L → Except Err α → Prop} {x : Act α}

@[simp]
theorem keeps_panic : C.Keeps Q l (Act.panic : Act α).run :=
  keeps_call.2 ⟨trivial, fun r => r.elim⟩

@[simp]
theorem keeps_deref {x : Option α} :
    C.Keeps Q l (Act.deref x).run ↔ ∀ a, x = some a → Q l (.ok a) := by
  cases x with
  | none => simp [Act.deref]
  | some a => simp [Act.deref]

@[simp]
theorem keeps_ofCall {x : Option (Except Err α)} :
    C.Keeps Q l (Act.ofCall x).run ↔ ∀ r, x = some r → Q l r := by
  simp only [Act.ofCall, keeps_seq, keeps_deref, keeps_ofExcept]

/-! ### Outcomes -/

/-- **The outcome** of a program that may fail: a result meets `R`, and an error, whichever it is,
leaves the state of the conduct in `E`. -/
def Outcome (R : L → α → Prop) (E : L → Prop) (l : L) : Except ε α → Prop
  | .ok a => R l a
  | .error _ => E l

/-- The program keeps to the conduct, and its outcome is given by `R` and `E`. -/
abbrev Leads (C : Conduct L) (R : L → α → Prop) (E : L → Prop) (l : L) (x : ExceptT ε P α) : Prop :=
  C.Keeps (Outcome R E) l x.run

section Outcome

variable {R : L → α → Prop} {E : L → Prop}

@[simp]
theorem outcome_ok (a : α) : Outcome R E l (.ok a : Except ε α) ↔ R l a := Iff.rfl

@[simp]
theorem outcome_error (e : ε) : Outcome R E l (.error e : Except ε α) ↔ E l := Iff.rfl

@[simp]
theorem outcome_mapError {ε' : Type} (f : ε → ε') (r : Except ε α) :
    Outcome R E l (r.mapError f) ↔ Outcome R E l r := by
  cases r <;> rfl

theorem outcome_iff {r : Except ε α} :
    Outcome R E l r ↔ (∀ a, r = .ok a → R l a) ∧ ∀ e, r = .error e → E l := by
  cases r <;> simp

@[simp high]
theorem leads_seq {R : L → β → Prop} {x : ExceptT ε P α} {f : α → ExceptT ε P β} :
    C.Leads R E l (x >>= f) ↔ C.Leads (fun l a => C.Leads R E l (f a)) E l x := by
  refine keeps_seq.trans ⟨fun h => h.mono fun l r hr => ?_, fun h => h.mono fun l r hr => ?_⟩
  all_goals cases r <;> exact hr

/-- A conduct without a state, when errors do not matter. -/
theorem Leads.yields {C : Conduct Unit} {R : α → Prop} {E : Unit → Prop} {x : ExceptT ε P α}
    (h : C.Leads (fun _ => R) E () x) : Yields C.discipline R x := by
  refine Keeps.mono h fun _ r hr => ?_
  cases r with
  | ok a => exact hr
  | error e => trivial

/-- What is read is known to hold. -/
theorem holds_of_step {loc : Loc} {entry : Entry loc.Val} {l' : L}
    (h : C.step l (.get loc) (.ok entry) l') : C.holds l loc entry.value := by
  rcases h with ⟨_, hr, hholds, -⟩ | ⟨-, hr, -⟩ | ⟨-, ⟨text, hr⟩, -⟩
  · cases hr
    exact hholds
  · cases hr
  · cases hr

theorem holds_of_finds {C : Conduct Unit} {loc : Loc} {v : loc.Val}
    (h : Finds C.discipline loc v) : C.holds () loc v := by
  obtain ⟨entry, hstep, rfl⟩ := h
  exact holds_of_step hstep

end Outcome

/-! ### Calls -/

/-- The answers to a call without a result: it was carried out, or it has failed. -/
theorem forall_answer {l₁ : L} {Q : L → Except Err Unit → Prop} :
    (∀ r l', (r = .ok () ∧ l' = l₁) ∨ C.Failing l r l' → Q l' r) ↔
      Q l₁ (.ok ()) ∧ (C.faulty l → ∀ text, Q (C.failed l) (.error (.nats text))) := by
  constructor
  · exact fun h => ⟨h _ _ (.inl ⟨rfl, rfl⟩), fun hfaulty text =>
      h _ _ (.inr ⟨hfaulty, ⟨text, rfl⟩, rfl⟩)⟩
  · rintro ⟨hok, hfail⟩ r l' (⟨rfl, rfl⟩ | ⟨hfaulty, ⟨text, rfl⟩, rfl⟩)
    · exact hok
    · exact hfail hfaulty text

variable {loc : Loc} {v : loc.Val} {Q : L → Except Err Unit → Prop} {ns : String}

@[simp]
theorem keeps_kvsFor : C.Keeps Q l (kvsFor ns).run ↔
      Q l (.ok ()) ∧ (C.faulty l → ∀ text, Q (C.failed l) (.error (.nats text))) :=
  (keeps_perform (o := .kvsFor ns)).trans ((and_iff_right trivial).trans forall_answer)

theorem keeps_kvGet {Q : L → Except Err (Entry loc.Val) → Prop} : C.Keeps Q l (kvGet loc).run ↔
      (∀ entry : Entry loc.Val, C.holds l loc entry.value → Q (C.noted l loc) (.ok entry)) ∧
        (C.absent l loc → Q l (.error (.sentinel .keyNotFound))) ∧
        (C.faulty l → ∀ text, Q (C.failed l) (.error (.nats text))) := by
  refine (keeps_perform (o := .get loc)).trans ⟨fun ⟨_, h⟩ => ⟨fun entry hv => ?_,
    fun habsent => ?_, fun hfaulty text => ?_⟩, fun ⟨hok, hmissing, hfail⟩ => ⟨trivial, ?_⟩⟩
  · exact h _ _ (.inl ⟨entry, rfl, hv, rfl⟩)
  · exact h _ _ (.inr (.inl ⟨habsent, rfl, rfl⟩))
  · exact h _ _ (.inr (.inr ⟨hfaulty, ⟨text, rfl⟩, rfl⟩))
  · rintro r l' (⟨entry, rfl, hv, rfl⟩ | ⟨habsent, rfl, rfl⟩ | ⟨hfaulty, ⟨text, rfl⟩, rfl⟩)
    · exact hok entry hv
    · exact hmissing habsent
    · exact hfail hfaulty text

@[simp]
theorem keeps_kvPut :
    C.Keeps Q l (kvPut loc v).run ↔ C.mayWrite l loc v ∧ Q (C.wrote l loc) (.ok ()) ∧
        (C.faulty l → ∀ text, Q (C.failed l) (.error (.nats text))) :=
  (keeps_perform (o := .put loc v)).trans (and_congr_right' forall_answer)

@[simp]
theorem keeps_kvUpdate {rev : Nat} :
    C.Keeps Q l (kvUpdate loc v rev).run ↔ C.mayWrite l loc v ∧ Q (C.wrote l loc) (.ok ()) ∧
        Q l (.error (.sentinel .wrongLastSequence)) ∧
        (C.faulty l → ∀ text, Q (C.failed l) (.error (.nats text))) := by
  refine (keeps_perform (o := .update loc v rev)).trans ⟨fun ⟨hmay, h⟩ => ⟨hmay,
    h _ _ (.inl ⟨rfl, rfl⟩), h _ _ (.inr (.inl ⟨rfl, rfl⟩)), fun hfaulty text =>
    h _ _ (.inr (.inr ⟨hfaulty, ⟨text, rfl⟩, rfl⟩))⟩,
    fun ⟨hmay, hok, hconflict, hfail⟩ => ⟨hmay, ?_⟩⟩
  rintro r l' (⟨rfl, rfl⟩ | ⟨rfl, rfl⟩ | ⟨hfaulty, ⟨text, rfl⟩, rfl⟩)
  · exact hok
  · exact hconflict
  · exact hfail hfaulty text

@[simp]
theorem keeps_kvDelete :
    C.Keeps Q l (kvDelete loc).run ↔ C.mayDelete l loc ∧ Q (C.deleted l loc) (.ok ()) ∧
        (C.faulty l → ∀ text, Q (C.failed l) (.error (.nats text))) :=
  (keeps_perform (o := .delete loc)).trans (and_congr_right' forall_answer)

@[simp]
theorem keeps_newId {Q : L → Except Err String → Prop} :
    C.Keeps Q l newId.run ↔ ∀ id : String, id ≠ "" → ',' ∉ id.toList → Q l (.ok id) := by
  refine keeps_bind.trans ((keeps_perform (o := .newId)).trans
    ⟨fun ⟨_, h⟩ id hne hcomma => keeps_ret.1 (h id l ⟨hne, hcomma, rfl⟩), fun h => ⟨trivial, ?_⟩⟩)
  rintro id l' ⟨hne, hcomma, rfl⟩
  exact keeps_ret.2 (h id hne hcomma)

@[simp]
theorem keeps_now {Q : L → Except Err Int → Prop} :
    C.Keeps Q l now.run ↔ ∀ t : Int, Q l (.ok t) := by
  refine keeps_bind.trans ((keeps_perform (o := .now)).trans
    ⟨fun ⟨_, h⟩ t => keeps_ret.1 (h t l rfl), fun h => ⟨trivial, ?_⟩⟩)
  rintro t l' rfl
  exact keeps_ret.2 (h t)

@[simp]
theorem keeps_mapOrder {keys : List String} {Q : L → Except Err (List String) → Prop} :
    C.Keeps Q l (mapOrder keys).run ↔ ∀ order : List String, order.Perm keys → Q l (.ok order) := by
  refine keeps_bind.trans ((keeps_perform (o := .mapOrder keys)).trans
    ⟨fun ⟨_, h⟩ order hperm => keeps_ret.1 (h order l ⟨hperm, rfl⟩), fun h => ⟨trivial, ?_⟩⟩)
  rintro order l' ⟨hperm, rfl⟩
  exact keeps_ret.2 (h order hperm)

/-! ### Load, save and delete -/

@[simp]
theorem keeps_nsKVs : C.Keeps Q l (nsKVs ns).run ↔ Q l (.ok ()) ∧ (C.faulty l → ∀ text,
      Q (C.failed l) (.error (.wrap ("get KVs for ns " ++ ns) (.nats text)))) := by
  simp [nsKVs]

/-- The error of `LoadObj` when a call fails. -/
def loadFailed (loc : Loc) (text : String) : Err :=
  .wrap ("load object from KV " ++ loc.ns ++ "_" ++ loc.bucket.name ++ "(" ++ loc.key ++ ")")
    (.wrap "load value from KV" (.nats text))

@[simp]
theorem loadNotFound_is (loc : Loc) (s : Sentinel) :
    (loadNotFound loc).is s = (.keyNotFound == s) := rfl

@[simp]
theorem loadFailed_is (loc : Loc) (text : String) (s : Sentinel) :
    (loadFailed loc text).is s = false := rfl

theorem keeps_loadObj {Q : L → Except Err loc.Val → Prop} :
    C.Keeps Q l (loadObj loc).run ↔ (∀ v, C.holds l loc v → Q (C.noted l loc) (.ok v)) ∧
        (C.absent l loc → Q l (.error (loadNotFound loc))) ∧
        (C.faulty l → ∀ text, Q (C.failed l) (.error (loadFailed loc text))) := by
  simp only [loadObj, load, keeps_wrap, keeps_seq, keeps_kvGet, keeps_pure, mapError_ok,
    mapError_error]
  exact and_congr ⟨fun h v hv => h ⟨v, false, 0⟩ hv, fun h entry hv => h entry.value hv⟩ Iff.rfl

@[simp]
theorem keeps_saveObj :
    C.Keeps Q l (saveObj loc v).run ↔ C.mayWrite l loc v ∧ Q (C.wrote l loc) (.ok ()) ∧
        (C.faulty l → ∀ text, Q (C.failed l) (.error (.wrap "save kv" (.nats text)))) := by
  simp [saveObj, save]

@[simp]
theorem keeps_delete : C.Keeps Q l (delete loc).run ↔
      C.mayDelete l loc ∧ Q (C.deleted l loc) (.ok ()) ∧
        (C.faulty l → ∀ text, Q (C.failed l) (.error (.wrap "delete key" (.nats text)))) := by
  simp [delete]

/-! ### Update -/

variable {msg : loc.Val} {f : loc.Val → Except Err loc.Val}

variable {Q : L → Except Err Unit × loc.Val → Prop}

/-- The location is of no interest to the conduct. -/
structure Neutral (C : Conduct L) (loc : Loc) : Prop where
  mayWrite : ∀ l v, C.mayWrite l loc v
  wrote : ∀ l, C.wrote l loc = l
  noted : ∀ l, C.noted l loc = l

/-- `UpdateObj` at a location of no interest, where failures are of no interest either. -/
theorem Keeps.updateObjMsg_of_neutral
    (h : C.Neutral loc) (hfailed : ∀ l, C.failed l = l) (hQ : ∀ r, Q l r) :
    C.Keeps Q l (SharWorkflow.updateObjMsg loc msg f) := by
  have hloop : C.Keeps Q l (updateKV loc msg f) := by
    -- the state of the conduct stays as it is
    refine Keeps.loop (P := fun l' _ => l' = l) (M := fun l' _ => l' = l) rfl ?_ ?_
    · rintro l msg rfl
      refine keeps_bind.2 (keeps_kvGet.2 ⟨fun entry _ => ?_, fun _ => keeps_ret.2 rfl,
        fun _ text => keeps_ret.2 (hfailed l)⟩)
      rw [h.noted]
      dsimp only
      split
      · exact keeps_ret.2 rfl
      · refine keeps_bind.2 (keeps_kvUpdate.2 ⟨h.mayWrite _ _, keeps_ret.2 (h.wrote l),
          keeps_ret.2 rfl, fun _ text => keeps_ret.2 (hfailed l)⟩)
    · rintro l r rfl
      exact keeps_ret.2 (hQ r)
  have hsaved : C.Keeps (fun l' _ => l' = l) l (saveObj loc msg).run :=
    keeps_saveObj.2 ⟨h.mayWrite _ _, h.wrote l, fun _ _ => hfailed l⟩
  have hread : C.Keeps (fun l' _ => l' = l) l (kvGet loc).run :=
    keeps_kvGet.2 ⟨fun _ _ => h.noted l, fun _ => rfl, fun _ _ => hfailed l⟩
  refine keeps_bind.2 (hread.mono ?_)
  rintro l old rfl
  refine keeps_ite.2 ⟨fun _ => keeps_bind.2 (hsaved.mono ?_), fun _ => hloop⟩
  rintro l (e | u) rfl
  · exact keeps_ret.2 (hQ _)
  · exact hloop

/-! ### Interleavings -/

/-- The call was answered, and nothing has come of it: no object was read, written or deleted,
nothing was published, and no call failed. -/
def isIdle : (o : Op) → Ans o → Bool
  | .get _, .error (.sentinel _) => true
  | .create _ _, .error (.sentinel _) => true
  | .update _ _ _, .error (.sentinel _) => true
  | .kvsFor _, .ok _ => true
  | .searchKeys _ _ _, .ok _ => true
  | .keys _ _, .ok _ => true
  | .keys _ _, .error (.sentinel _) => true
  | .createConsumer _ _, .ok _ => true
  | .fetch _ _, _ => true
  | .ackEntry _, _ => true
  | .ensureBucket _, .ok _ => true
  | .newId, _ => true
  | .now, _ => true
  | .mapOrder _, _ => true
  | .cacheGet _, _ => true
  | .mark _, _ => true
  | _, _ => false

variable {F : Op → Prop} {o : Op} {w w' : World} {r : Ans o}

/-- A call that nothing has come of leaves the store, the log and the cache alone. -/
theorem same_of_isIdle (h : env F o w r w') (hidle : isIdle o r = true) :
    w'.store = w.store ∧ w'.log = w.log ∧ w'.cache = w.cache := by
  cases effect_of_env h with
  | put | create | update | delete | publish | cacheSet => cases hidle
  | _ => exact ⟨rfl, rfl, rfl⟩

/-- The call has written the object `v` at `loc`. -/
inductive IsWrite (loc : Loc) (v : loc.Val) : (o : Op) → Ans o → Prop
  | put : IsWrite loc v (.put loc v) (.ok ())
  | create : IsWrite loc v (.create loc v) (.ok ())
  | update (rev : Nat) : IsWrite loc v (.update loc v rev) (.ok ())

theorem IsWrite.isStoreAt (h : IsWrite loc v o r) : isStoreAt loc o r = true := by
  cases h with
  | put | create | update => exact decide_eq_true rfl

/-- What a call does to the object at a location. -/
theorem value_of_env (h : env F o w r w')
    (loc : Loc) : w'.value loc = w.value loc ∨ w'.value loc = none ∨
      ∃ v, IsWrite loc v o r ∧ w'.value loc = some v := by
  by_cases hdelete : isDeleteAt loc o r = true
  · exact .inr (.inl (value_of_delete h hdelete))
  by_cases hstore : isStoreAt loc o r = true
  · refine .inr (.inr ?_)
    cases effect_of_env h with
    | quiet hquiet => cases (isStoreAt_of_quiet hquiet loc).symm.trans hstore
    | put l v | create l v | update l v =>
      obtain rfl := of_decide_eq_true hstore
      exact ⟨v, by constructor, put_value_self _ _ _⟩
    | _ => cases hstore
  · exact .inl (value_of_other h (Bool.eq_false_iff.2 hstore) (Bool.eq_false_iff.2 hdelete))

/-- **How a call is answered**, in terms of the conduct. -/
inductive Answered (C : Conduct L) (F : Op → Prop) (l : L) (w : World) :
    (o : Op) → Ans o → World → Prop
  | idle {o : Op} {r : Ans o} {w' : World} (hidle : isIdle o r = true) (hstep : C.step l o r l) :
      Answered C F l w o r w'
  | failed {o : Op} {r : Ans o} (hF : F o) (hfailure : isFailure o r = true)
      (hstep : C.faulty l → C.step l o r (C.failed l)) : Answered C F l w o r w
  | read {loc : Loc} {entry : Entry loc.Val} (hvalue : w.value loc = some entry.value) :
      Answered C F l w (.get loc) (.ok entry) w
  | written {loc : Loc} {v : loc.Val} {o : Op} {r : Ans o} (hwrite : IsWrite loc v o r)
      (hmay : C.may l o → C.mayWrite l loc v) (hstep : C.step l o r (C.wrote l loc)) :
      Answered C F l w o r (w.put loc v)
  | deleted (loc : Loc) : Answered C F l w (.delete loc) (.ok ()) (w.clear loc)
  | published (m : Msg) : Answered C F l w (.publish m) (.ok ()) (w.publish m)
  | cached {id : String} {wf : Workflow} {w' : World} : Answered C F l w (.cacheSet id wf) () w'

theorem answered_of_env (h : env F o w r w')
    (habsent : ∀ {loc}, w.value loc = none → C.absent l loc)
    (hdefines : ∀ {id wf}, w.cache id = some wf → C.defines id wf)
    (hallows : ∀ f, o = .mark f → C.allows f) : C.Answered F l w o r w' := by
  cases o with
  | kvsFor ns | searchKeys ns b pre | ensureBucket name =>
    obtain ⟨rfl, rfl | ⟨hF, text, rfl⟩⟩ := h
    · first | exact .idle rfl (.inl ⟨rfl, rfl⟩) | exact .idle rfl (.inl ⟨⟨_, rfl⟩, rfl⟩)
    · exact .failed hF rfl fun hfaulty => .inr ⟨hfaulty, ⟨text, rfl⟩, rfl⟩
  | get loc =>
    obtain ⟨rfl, ⟨hnone, rfl⟩ | ⟨v, isNil, hv, -, rfl⟩ | ⟨hF, text, rfl⟩⟩ := h
    · exact .idle rfl (.inr (.inl ⟨habsent hnone, rfl, rfl⟩))
    · exact .read hv
    · exact .failed hF rfl fun hfaulty => .inr (.inr ⟨hfaulty, ⟨text, rfl⟩, rfl⟩)
  | put loc v =>
    rcases h with ⟨rfl, rfl⟩ | ⟨rfl, hF, text, rfl⟩
    · exact .written .put id (.inl ⟨rfl, rfl⟩)
    · exact .failed hF rfl fun hfaulty => .inr ⟨hfaulty, ⟨text, rfl⟩, rfl⟩
  | create loc v | update loc v rev =>
    rcases h with ⟨-, rfl, rfl⟩ | ⟨-, rfl, rfl⟩ | ⟨rfl, hF, text, rfl⟩
    · exact .written (by constructor) id (.inl ⟨rfl, rfl⟩)
    · exact .idle rfl (.inr (.inl ⟨rfl, rfl⟩))
    · exact .failed hF rfl fun hfaulty => .inr (.inr ⟨hfaulty, ⟨text, rfl⟩, rfl⟩)
  | delete loc | publish m =>
    rcases h with ⟨rfl, rfl⟩ | ⟨rfl, hF, text, rfl⟩
    · first | exact .deleted loc | exact .published m
    · exact .failed hF rfl fun hfaulty => .inr ⟨hfaulty, ⟨text, rfl⟩, rfl⟩
  | createConsumer durable filter =>
    rcases h with ⟨rfl, -⟩ | ⟨rfl, hF, text, rfl⟩
    · exact .idle rfl (.inl ⟨rfl, rfl⟩)
    · exact .failed hF rfl fun hfaulty => .inr ⟨hfaulty, ⟨text, rfl⟩, rfl⟩
  | newId => exact .idle rfl ⟨h.1.2.1, h.1.2.2, rfl⟩
  | mapOrder keys => exact .idle rfl ⟨h.2, rfl⟩
  | cacheGet id =>
    refine .idle rfl ⟨fun wf hwf => ?_, rfl⟩
    rcases h.2 with hr | hr
    · simp [hr] at hwf
    · exact hdefines (hr ▸ hwf)
  | cacheSet id wf => exact .cached
  | keys ns b =>
    obtain ⟨rfl, ⟨-, rfl⟩ | ⟨keys, -, -, rfl⟩ | ⟨hF, text, rfl⟩⟩ := h
    · exact .idle rfl (.inr (.inl ⟨rfl, rfl⟩))
    · exact .idle rfl (.inl ⟨⟨_, rfl⟩, rfl⟩)
    · exact .failed hF rfl fun hfaulty => .inr (.inr ⟨hfaulty, ⟨text, rfl⟩, rfl⟩)
  | mark f => exact .idle rfl ⟨hallows f rfl, rfl⟩
  | now | fetch durable filter | ackEntry durable => exact .idle rfl rfl
  | panic => exact r.elim

/-- A world that holds what the conduct expects answers as the conduct expects. -/
theorem exists_step_of_env
    (h : env F o w r w') (hholds : ∀ {loc v}, w.value loc = some v → C.holds l loc v)
    (hdefines : ∀ {id wf}, w.cache id = some wf → C.defines id wf)
    (habsent : ∀ loc, C.absent l loc) (hallows : ∀ f, C.allows f) (hfaulty : C.faulty l) :
    ∃ l', C.step l o r l' := by
  cases answered_of_env h (fun _ => habsent _) hdefines fun f _ => hallows f with
  | idle _ hstep => exact ⟨_, hstep⟩
  | failed _ _ hstep => exact ⟨_, hstep hfaulty⟩
  | read hvalue => exact ⟨_, .inl ⟨_, rfl, hholds hvalue, rfl⟩⟩
  | written _ _ hstep => exact ⟨_, hstep⟩
  | deleted | published => exact ⟨_, .inl ⟨rfl, rfl⟩⟩
  | cached => exact ⟨l, rfl⟩

/-- The invariant `I` keeps up what the thread `i` assumes under the conduct, and the ghost value of
the thread is the state of the conduct. -/
structure Enforced {ι : Type} [DecidableEq ι] (C : Conduct L) (F : Op → Prop)
    (G : WGuard ι) (I : WInv ι L) (i : ι) : Prop where
  holds : ∀ {s t g loc v}, I s t g → s.value loc = some v → C.holds (g i) loc v
  absent : ∀ {s t g loc}, I s t g → s.value loc = none → C.absent (g i) loc
  defines : ∀ {s t g id wf}, I s t g → s.cache id = some wf → C.defines id wf
  allows : ∀ {s t g f}, I s t g → G ⟨i, s, .mark f, ()⟩ t → C.allows f
  faulty : ∀ {s t g o} {r : Ans o}, I s t g → F o → isFailure o r = true → G ⟨i, s, o, r⟩ t →
    C.faulty (g i)
  idle : ∀ {s t g o} {r : Ans o} {s'}, I s t g → env F o s r s' → isIdle o r = true →
    G ⟨i, s, o, r⟩ t → I s' (⟨i, s, o, r⟩ :: t) g
  fail : ∀ {s t g o} {r : Ans o}, I s t g → F o → isFailure o r = true → G ⟨i, s, o, r⟩ t →
    I s (⟨i, s, o, r⟩ :: t) (Function.update g i (C.failed (g i)))
  read : ∀ {s t g loc} {entry : Entry loc.Val}, I s t g → s.value loc = some entry.value →
    G ⟨i, s, .get loc, .ok entry⟩ t →
    I s (⟨i, s, .get loc, .ok entry⟩ :: t) (Function.update g i (C.noted (g i) loc))
  write : ∀ {s t g loc v o} {r : Ans o}, I s t g → C.mayWrite (g i) loc v → IsWrite loc v o r →
    G ⟨i, s, o, r⟩ t →
    I (s.put loc v) (⟨i, s, o, r⟩ :: t) (Function.update g i (C.wrote (g i) loc))
  delete : ∀ {s t g loc}, I s t g → C.mayDelete (g i) loc → G ⟨i, s, .delete loc, .ok ()⟩ t →
    I (s.clear loc) (⟨i, s, .delete loc, .ok ()⟩ :: t) (Function.update g i (C.deleted (g i) loc))
  publish : ∀ {s t g m}, I s t g → C.mayPublish (g i) m → G ⟨i, s, .publish m, .ok ()⟩ t →
    I (s.publish m) (⟨i, s, .publish m, .ok ()⟩ :: t) (Function.update g i (C.published (g i) m))
  cache : ∀ {s t g id wf s'}, I s t g → C.defines id wf → env F (.cacheSet id wf) s () s' →
    G ⟨i, s, .cacheSet id wf, ()⟩ t → I s' (⟨i, s, .cacheSet id wf, ()⟩ :: t) g

/-- **A conduct that the invariant enforces governs the threads of the protocol.** -/
theorem Enforced.governs {ι : Type} [DecidableEq ι]
    {G : WGuard ι} {I : WInv ι L} {i : ι}
    (h : C.Enforced F G I i) : C.discipline.Governs (natsProtocol F True G I) i where
  allowed := fun _ _ => trivial
  restores := by
    intro o s t g r s' hmay hinv henv hguard
    have hanswered : C.Answered F (g i) s o r s' :=
      answered_of_env henv (h.absent hinv) (h.defines hinv) fun f ho => by
        subst ho
        exact h.allows hinv hguard
    cases hanswered with
    | idle hidle hstep =>
      refine ⟨g i, hstep, ?_⟩
      rw [Function.update_eq_self]
      exact h.idle hinv henv hidle hguard
    | failed hF hfailure hstep =>
      exact ⟨_, hstep (h.faulty hinv hF hfailure hguard), h.fail hinv hF hfailure hguard⟩
    | read hvalue => exact ⟨_, .inl ⟨_, rfl, h.holds hinv hvalue, rfl⟩, h.read hinv hvalue hguard⟩
    | written hwrite hwritable hstep =>
      exact ⟨_, hstep, h.write hinv (hwritable hmay) hwrite hguard⟩
    | deleted => exact ⟨_, .inl ⟨rfl, rfl⟩, h.delete hinv hmay hguard⟩
    | published => exact ⟨_, .inl ⟨rfl, rfl⟩, h.publish hinv hmay hguard⟩
    | cached =>
      refine ⟨g i, rfl, ?_⟩
      rw [Function.update_eq_self]
      exact h.cache hinv hmay henv hguard

end Conduct

end SharWorkflow
