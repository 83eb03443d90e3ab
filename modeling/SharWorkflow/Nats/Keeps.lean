import SharWorkflow.Nats.Protocol
import SharWorkflow.Concurrent.Discipline

/-!
# Programs under a discipline

What the constructs of `Nats/Util.lean` mean for the results of a program, whichever discipline
(`Concurrent/Discipline.lean`) it keeps.

* `keeps_ending`, `keeps_attempt`, …: weakest preconditions, tagged for `simp`.
* `Yields.ending`, `yields_kvGet`, …: for a discipline without a state. What is known of the result
  of a call is that the discipline reckons with it; what is known of the errors is a condition that
  the program `PassesOn`.
-/

namespace SharWorkflow

open Concurrent Discipline

@[simp]
theorem mapError_ok {ε ε' α : Type} (f : ε → ε') (a : α) :
    (Except.ok a : Except ε α).mapError f = .ok a := rfl

@[simp]
theorem mapError_error {ε ε' α : Type} (f : ε → ε') (e : ε) :
    (Except.error e : Except ε α).mapError f = .error (f e) := rfl

@[simp]
theorem optionalResult_ok {α : Type} (absent : List Sentinel) (a : α) :
    optionalResult absent (.ok a) = .ok (some a) := rfl

@[simp]
theorem optionalResult_error {α : Type} (absent : List Sentinel) (e : Err) :
    optionalResult absent (.error e : Except Err α) =
      if absent.any e.is then .ok none else .error e := rfl

variable {L α β ε : Type}

/-! ### Weakest preconditions -/

section Keeps

variable {D : Discipline Op Ans L} {l : L} {Q : L → Except Err α → Prop} {x : Act α}

attribute [simp] keeps_ret keeps_pure keeps_throw keeps_seq keeps_ite keeps_run_ite

@[simp]
theorem keeps_ending {Q : L → Except ε α → Prop} {f : Err → ε} :
    D.Keeps Q l (Act.ending f x).run ↔ D.Keeps (fun l r => Q l (r.mapError f)) l x.run := by
  refine keeps_bind.trans ⟨fun h => h.mono fun l r hr => ?_, fun h => h.mono fun l r hr => ?_⟩
  all_goals cases r <;> simpa using hr

@[simp]
theorem keeps_wrap {text : String} : D.Keeps Q l (Act.wrap text x).run ↔
    D.Keeps (fun l r => Q l (r.mapError (.wrap text))) l x.run :=
  keeps_ending

@[simp]
theorem keeps_mapError {f : Err → Err} :
    D.Keeps Q l (Act.mapError f x).run ↔ D.Keeps (fun l r => Q l (r.mapError f)) l x.run :=
  keeps_ending

@[simp]
theorem keeps_attempt {Q : L → Except Err (Except Err α) → Prop} :
    D.Keeps Q l (Act.attempt x).run ↔ D.Keeps (fun l r => Q l (.ok r)) l x.run := by
  refine keeps_bind.trans ⟨fun h => h.mono fun l r hr => ?_, fun h => h.mono fun l r hr => ?_⟩
  all_goals simpa using hr

@[simp]
theorem keeps_optional {Q : L → Except Err (Option α) → Prop} {absent : List Sentinel} :
    D.Keeps Q l (Act.optional absent x).run ↔
      D.Keeps (fun l r => Q l (optionalResult absent r)) l x.run := by
  refine keeps_bind.trans ⟨fun h => h.mono fun l r hr => ?_, fun h => h.mono fun l r hr => ?_⟩
  all_goals
    cases r with
    | ok a => simpa using hr
    | error e => by_cases he : absent.any e.is = true <;> simpa [he] using hr

@[simp]
theorem keeps_ofExcept {r : Except Err α} : D.Keeps Q l (Act.ofExcept r).run ↔ Q l r := keeps_ret

@[simp]
theorem keeps_liftM {Q : L → Except ε α → Prop} {p : P α} :
    D.Keeps Q l (liftM p : ExceptT ε P α).run ↔ D.Keeps (fun l a => Q l (.ok a)) l p := by
  refine (keeps_bind (p := p)).trans
    ⟨fun h => h.mono fun l a ha => ?_, fun h => h.mono fun l a ha => ?_⟩
  · exact (keeps_ret (Q := Q)).1 ha
  · exact (keeps_ret (Q := Q)).2 ha

@[simp]
theorem keeps_when {Q : L → Except Err Unit → Prop} {c : Prop} [Decidable c] {x : Act Unit} :
    D.Keeps Q l (Act.when c x).run ↔ (c → D.Keeps Q l x.run) ∧ (¬ c → Q l (.ok ())) := by
  by_cases hc : c <;> simp [Act.when, hc]

end Keeps

/-! ### Disciplines without a state -/

/-- A result meets `Q`, and an error `E`. -/
def Meets (Q : α → Prop) (E : ε → Prop) : Except ε α → Prop
  | .ok a => Q a
  | .error e => E e

variable {D : Discipline Op Ans Unit} {Q Q' : α → Prop} {R : β → Prop}

section Yields

variable {E E' : ε → Prop} {p : P α} {x y : ExceptT ε P α} {k : α → ExceptT ε P β} {r : Except ε α}

theorem Meets.ok {a : α} (h : Meets Q E r) (hr : r = .ok a) : Q a := by
  subst hr
  exact h

theorem Meets.error {e : ε} (h : Meets Q E r) (hr : r = .error e) : E e := by
  subst hr
  exact h

theorem Meets.mono (h : Meets Q E r) (hQ : ∀ a, Q a → Q' a) (hE : ∀ e, E e → E' e) :
    Meets Q' E' r := by
  cases r with
  | ok a => exact hQ a h
  | error e => exact hE e h

/-- **The program keeps a discipline without a state**, a result meets `Q`, and an error `E`. -/
def Yields (D : Discipline Op Ans Unit) (Q : α → Prop) (x : ExceptT ε P α)
    (E : ε → Prop := fun _ => True) : Prop :=
  D.Ensures (Meets Q E) x.run

theorem yields_pure {a : α} (h : Q a) : Yields D Q (pure a : ExceptT ε P α) E := ensures_ret h

theorem yields_throw (e : ε) (h : E e := by exact trivial) :
    Yields D Q (throw e : ExceptT ε P α) E :=
  ensures_ret h

theorem yields_liftM (h : D.Ensures Q p) : Yields D Q (liftM p : ExceptT ε P α) E :=
  Ensures.bind h fun _ ha => yields_pure ha

theorem Yields.mono (h : Yields D Q x E) (hQ : ∀ a, Q a → Q' a) : Yields D Q' x E :=
  Ensures.mono h fun _ hr => hr.mono hQ fun _ he => he

/-- The result does not matter. -/
theorem Yields.any (h : Yields D Q x E) : Yields D (fun _ => True) x E := h.mono fun _ _ => trivial

/-- The errors do not matter. -/
theorem Yields.loose (h : Yields D Q x E) : Yields D Q x :=
  Ensures.mono h fun _ hr => hr.mono (fun _ ha => ha) fun _ _ => trivial

/-- What follows may rely on the result. -/
theorem Yields.seq (hx : Yields D Q x E) (hk : ∀ a, Q a → Yields D R (k a) E) :
    Yields D R (x >>= k) E := by
  refine ensures_seq (Ensures.mono hx fun r hr => ?_)
  cases r with
  | ok a => exact hk a hr
  | error e => exact hr

/-- What follows does not rely on the result. -/
theorem Yields.andThen (hx : Yields D Q x E) (hk : ∀ a, Yields D R (k a) E) :
    Yields D R (x >>= k) E :=
  hx.seq fun a _ => hk a

theorem Yields.ite {c : Prop} [Decidable c] (hx : c → Yields D Q x E) (hy : ¬ c → Yields D Q y E) :
    Yields D Q (if c then x else y) E := by
  split
  · exact hx ‹_›
  · exact hy ‹_›

/-- What a program finds may be absent. -/
theorem Yields.option_bind {x : ExceptT ε P (Option α)} {k : Option α → ExceptT ε P β}
    {Q : Option α → Prop} (hx : Yields D Q x E) (hnone : Yields D R (k none) E)
    (hsome : ∀ a, Yields D R (k (some a)) E) : Yields D R (x >>= k) E := by
  refine hx.andThen fun found => ?_
  cases found with
  | none => exact hnone
  | some a => exact hsome a

variable {xs : List β}

/-- What each iteration yields holds in the end. -/
theorem Yields.forM_all {M : β → Prop} {k : β → ExceptT ε P PUnit}
    (h : ∀ x ∈ xs, Yields D (fun _ => M x) (k x) E) :
    Yields D (fun _ => ∀ x ∈ xs, M x) (xs.forM k) E := by
  induction xs with
  | nil => exact yields_pure fun _ h => absurd h List.not_mem_nil
  | cons x xs ih =>
    refine (h x List.mem_cons_self).seq fun _ hx => ?_
    refine (ih fun y hy => h y (List.mem_cons_of_mem _ hy)).mono fun _ hxs => ?_
    exact List.forall_mem_cons.2 ⟨hx, hxs⟩

theorem Yields.forM {k : β → ExceptT ε P PUnit} (h : ∀ x ∈ xs, Yields D (fun _ => True) (k x) E) :
    Yields D (fun _ => True) (xs.forM k) E :=
  (Yields.forM_all h).any

theorem Yields.mapM {k : β → ExceptT ε P α} (h : ∀ x, Yields D (fun _ => True) (k x) E) :
    Yields D (fun _ => True) (xs.mapM k) E := by
  induction xs with
  | nil => exact yields_pure trivial
  | cons x xs ih =>
    have := @Prog.lawfulMonad Op Ans
    rw [List.mapM_cons]
    exact (h x).andThen fun _ => ih.andThen fun _ => yields_pure trivial

end Yields

/-- The error that a call is answered with. -/
def Op.error? : (o : Op) → Ans o → Option Err
  | .kvsFor _, .error e => some e
  | .get _, .error e => some e
  | .put _ _, .error e => some e
  | .create _ _, .error e => some e
  | .update _ _ _, .error e => some e
  | .delete _, .error e => some e
  | .publish _, .error e => some e
  | .searchKeys _ _ _, .error e => some e
  | .keys _ _, .error e => some e
  | .fetch _ _, .error e => some e
  | .ackEntry _, .error e => some e
  | .createConsumer _ _, .error e => some e
  | .ensureBucket _, .error e => some e
  | _, _ => none

/-- **The errors that programs pass on**: those that the calls are answered with, those of their own
that carry no state, and each of them with a text in front. -/
class PassesOn (D : Discipline Op Ans Unit) (E : Err → Prop) : Prop where
  answer : ∀ {o r e}, D.step () o r () → o.error? r = some e → E e
  wrap : ∀ text {e}, E e → E (.wrap text e)
  sentinel : ∀ s, E (.sentinel s)
  text : ∀ s, E (.text s)
  fatal : ∀ e, E (.workflowFatal e none)

instance : PassesOn D fun _ => True where
  answer _ _ := trivial
  wrap _ _ _ := trivial
  sentinel _ := trivial
  text _ := trivial
  fatal _ := trivial

variable {E : Err → Prop} {x : Act α} {f : Err → ε}

/-- An error is turned into another one. -/
theorem ensures_ending {R : Except ε α → Prop} (h : D.Ensures (fun r => R (r.mapError f)) x.run) :
    D.Ensures R (Act.ending f x).run :=
  keeps_ending.2 h

theorem Yields.endingIn {E' : ε → Prop} (h : Yields D Q x E) (hE : ∀ e, E e → E' (f e)) :
    Yields D Q (Act.ending f x) E' := by
  refine Ensures.bind h fun r hr => ?_
  cases r with
  | ok a => exact ensures_ret hr
  | error e => exact ensures_ret (hE e hr)

theorem Yields.ending (h : Yields D Q x) : Yields D Q (Act.ending f x) :=
  h.endingIn fun _ _ => trivial

theorem Yields.mapError {f : Err → Err} (h : Yields D Q x E)
    (hE : ∀ e, E e → E (f e) := by exact fun _ _ => trivial) : Yields D Q (Act.mapError f x) E :=
  h.endingIn hE

/-- The result is looked at, or the error. -/
theorem Yields.attempt (h : Yields D Q x E) : Yields D (Meets Q E) (Act.attempt x) E :=
  Ensures.bind h fun _ hr => ensures_ret hr

theorem Yields.attempt_bind {k : Except Err α → Act β} (hx : Yields D Q x E)
    (hok : ∀ a, Yields D R (k (.ok a)) E) (herror : ∀ e, E e → Yields D R (k (.error e)) E) :
    Yields D R (Act.attempt x >>= k) E := by
  refine hx.attempt.seq fun r hr => ?_
  cases r with
  | ok a => exact hok a
  | error e => exact herror e hr

/-- Some errors mean that there is no result. -/
theorem Yields.optional {absent : List Sentinel} (h : Yields D Q x E) :
    Yields D (fun found => ∀ a, found = some a → Q a) (Act.optional absent x) E := by
  refine Ensures.bind h fun r hr => ?_
  cases r with
  | ok a => exact ensures_ret fun _ ha => Option.some.inj ha ▸ hr
  | error e =>
    dsimp only
    split
    · exact ensures_ret fun _ ha => by cases ha
    · exact ensures_ret hr

theorem yields_ofExcept (r : Except Err α)
    (h : ∀ e, r = .error e → E e := by exact fun _ _ => trivial) :
    Yields D (r = .ok ·) (Act.ofExcept r) E := by
  cases r with
  | ok a => exact ensures_ret rfl
  | error e => exact ensures_ret (h e rfl)

/-- A pointer is used that is not nil. -/
theorem yields_deref_some {x : Option α} {a : α} (hx : x = some a) :
    Yields D (a = ·) (Act.deref x) E := by
  subst hx
  exact yields_pure rfl

theorem yields_ofCall {x : Option (Except Err α)} (hx : x.isSome = true) :
    Yields D (fun _ => True) (Act.ofCall x) := by
  obtain ⟨r, rfl⟩ := Option.isSome_iff_exists.1 hx
  exact (yields_deref_some rfl).andThen fun r => (yields_ofExcept r).any

/-- A pointer is used where a panic is allowed. -/
theorem yields_deref (hpanic : D.may () .panic) (x : Option α) :
    Yields D (x = some ·) (Act.deref x) E := by
  cases x with
  | none => exact keeps_call.2 ⟨hpanic, fun r => r.elim⟩
  | some a => exact yields_pure rfl

theorem Yields.when {Q : Unit → Prop} {c : Prop} [Decidable c] {x : Act Unit}
    (hx : c → Yields D Q x E) (hskip : ¬ c → Q ()) : Yields D Q (Act.when c x) E :=
  Yields.ite hx fun hc => yields_pure (hskip hc)

/-- A call that always has an answer. -/
theorem yields_answer {o : Op} {f : Ans o → α} (hmay : D.may () o)
    (h : ∀ r, D.step () o r () → Q (f r)) :
    Yields D Q ((Prog.perform o).bind fun r => .ret (.ok (f r)) : Act α) E :=
  (ensures_perform hmay h).bind fun _ hr => yields_pure hr

theorem yields_newId (h : D.may () .newId) : Yields D (D.step () .newId · ()) newId E :=
  yields_answer (o := .newId) (f := id) h fun _ hr => hr

theorem yields_now (h : D.may () .now) : Yields D (fun _ => True) now E :=
  yields_answer (o := .now) (f := id) h fun _ _ => trivial

theorem yields_mapOrder {keys : List String} (h : D.may () (.mapOrder keys)) :
    Yields D (D.step () (.mapOrder keys) · ()) (mapOrder keys) E :=
  yields_answer (o := .mapOrder keys) (f := id) h fun _ hr => hr

theorem yields_mark {function : String} (h : D.may () (.mark function)) :
    Yields D (fun _ => True) (mark function) E :=
  yields_answer (o := .mark function) (f := id) h fun _ _ => trivial

section PassesOn

variable [PassesOn D E]

theorem Yields.wrap {text : String} (h : Yields D Q x E) : Yields D Q (Act.wrap text x) E :=
  h.endingIn fun _ => PassesOn.wrap (D := D) text

theorem Yields.wrap_bind {text : String} {k : α → Act β} (hx : Yields D Q x E)
    (hk : ∀ a, Yields D R (k a) E) : Yields D R (Act.wrap text x >>= k) E :=
  hx.wrap.andThen hk

/-! ### Calls -/

variable {ns : String} {l : Loc} {v : l.Val}

theorem yields_kvsFor (h : D.may () (.kvsFor ns)) :
    Yields D (fun _ => True) (kvsFor ns) E := by
  refine ensures_perform (o := Op.kvsFor ns) h ?_
  rintro (e | a) hr
  · exact PassesOn.answer hr rfl
  · exact trivial

theorem yields_nsKVs (h : D.may () (.kvsFor ns)) : Yields D (fun _ => True) (nsKVs ns) E :=
  (yields_kvsFor h).wrap

theorem yields_kvGet (h : D.may () (.get l)) :
    Yields D (fun entry => D.step () (.get l) (.ok entry) ()) (kvGet l) E := by
  refine ensures_perform (o := Op.get l) h ?_
  rintro (e | a) hr
  · exact PassesOn.answer hr rfl
  · exact hr

theorem yields_kvPut (h : D.may () (.put l v)) :
    Yields D (fun _ => D.step () (.put l v) (.ok ()) ()) (kvPut l v) E := by
  refine ensures_perform (o := Op.put l v) h ?_
  rintro (e | a) hr
  · exact PassesOn.answer hr rfl
  · exact hr

theorem yields_kvUpdate {rev : Nat} (h : D.may () (.update l v rev)) :
    Yields D (fun _ => True) (kvUpdate l v rev) E := by
  refine ensures_perform (o := Op.update l v rev) h ?_
  rintro (e | a) hr
  · exact PassesOn.answer hr rfl
  · exact trivial

theorem yields_kvDelete (h : D.may () (.delete l)) :
    Yields D (fun _ => True) (kvDelete l) E := by
  refine ensures_perform (o := Op.delete l) h ?_
  rintro (e | a) hr
  · exact PassesOn.answer hr rfl
  · exact trivial

theorem yields_keyPrefixSearch {b : Bucket} {pre : String} (h : D.may () (.searchKeys ns b pre)) :
    Yields D (fun _ => True) (keyPrefixSearch ns b pre) E := by
  refine ensures_perform (o := Op.searchKeys ns b pre) h ?_
  rintro (e | a) hr
  · exact PassesOn.answer hr rfl
  · exact trivial

/-- What follows a save may rely on the answer to it. -/
theorem yields_saveObj (h : D.may () (.put l v)) :
    Yields D (fun _ => D.step () (.put l v) (.ok ()) ()) (saveObj l v) E :=
  (yields_kvPut h).wrap

theorem yields_delete (h : D.may () (.delete l)) : Yields D (fun _ => True) (delete l) E :=
  (yields_kvDelete h).wrap

/-- The discipline reckons with the object at the location. -/
def Finds (D : Discipline Op Ans Unit) (l : Loc) (v : l.Val) : Prop :=
  ∃ entry : Entry l.Val, D.step () (.get l) (.ok entry) () ∧ entry.value = v

theorem yields_load (h : D.may () (.get l)) : Yields D (Finds D l) (load l) E :=
  ((yields_kvGet h).seq fun entry hentry => yields_pure ⟨entry, hentry, rfl⟩).wrap

theorem yields_loadObj (h : D.may () (.get l)) : Yields D (Finds D l) (loadObj l) E :=
  (yields_load h).wrap

/-! ### Updates -/

variable {msg : l.Val} {updateFn : l.Val → Except Err l.Val}

/-- The save that precedes an update if nothing is stored. -/
theorem ensures_firstSave {p : P β} {k : Except Err Unit → P β} (hget : D.may () (.get l))
    (hfirst : D.may () (.put l msg) ∨ ∀ r, D.step () (.get l) r () → isAbsent r = false)
    (hk : ∀ r, Meets (fun _ => True) E r → D.Ensures R (k r)) (hp : D.Ensures R p) :
    D.Ensures R ((kvGet l).run.bind fun old =>
      if isAbsent old then (saveObj l msg).run.bind k else p) := by
  refine Ensures.bind (ensures_perform (o := Op.get l) hget fun _ hr => hr) fun old hold => ?_
  split
  · rename_i habsent
    refine Ensures.bind (yields_saveObj (hfirst.resolve_right fun hstored => ?_)).any hk
    simp [hstored old hold] at habsent
  · exact hp

section

variable (hget : D.may () (.get l)) (hupdate : ∀ entry uv rev, D.step () (.get l) (.ok entry) () →
  updateFn entry.value = .ok uv → D.may () (.update l uv rev))
include hget hupdate

/-- The update loop. The function is applied to what the discipline reckons with. -/
theorem ensures_updateKV (hfn : ∀ v e, updateFn v = .error e → E e) :
    D.Ensures (fun r => Meets (fun _ => True) E r.1) (updateKV l msg updateFn) := by
  refine Ensures.loop (P := fun _ => True) (M := fun r => Meets (fun _ => True) E r.1) trivial
    (fun msg _ => ?_) fun _ hr => ensures_ret hr
  refine Ensures.bind (yields_kvGet (E := E) hget) ?_
  rintro (e | entry) hentry
  · exact ensures_ret (PassesOn.wrap (D := D) _ hentry)
  dsimp only
  split
  · rename_i e he
    exact ensures_ret (PassesOn.wrap (D := D) _ (PassesOn.wrap (D := D) _ (hfn _ e he)))
  · rename_i uv huv
    refine Ensures.bind (yields_kvUpdate (E := E) (hupdate entry uv _ hentry huv)) ?_
    rintro (e | _) hr
    · dsimp only
      split
      · exact ensures_ret trivial
      · exact ensures_ret (PassesOn.wrap (D := D) _ hr)
    · exact ensures_ret trivial

variable (hfirst : D.may () (.put l msg) ∨ ∀ r, D.step () (.get l) r () → isAbsent r = false)
include hfirst

theorem ensures_updateObjMsg (hfn : ∀ v e, updateFn v = .error e → E e) :
    D.Ensures (fun r => Meets (fun _ => True) E r.1) (updateObjMsg l msg updateFn) := by
  refine ensures_firstSave (E := E) hget hfirst ?_ (ensures_updateKV hget hupdate hfn)
  rintro (e | _) hr
  · exact ensures_ret (PassesOn.wrap (D := D) _ hr)
  · exact ensures_updateKV hget hupdate hfn

theorem yields_updateObj (hfn : ∀ v e, updateFn v = .error e → E e := by exact fun _ _ _ => trivial)
    :
    Yields D (fun _ => True) (updateObj l msg updateFn) E := by
  refine Ensures.bind (ensures_updateObjMsg hget hupdate hfirst hfn) ?_
  rintro ⟨e | _, v⟩ hr
  · exact ensures_ret hr
  · exact ensures_ret trivial

end

end PassesOn

end SharWorkflow
