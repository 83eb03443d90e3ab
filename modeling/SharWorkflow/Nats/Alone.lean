import SharWorkflow.Nats.Conduct
import SharWorkflow.Concurrent.Sequential

/-!
# A handler alone

The calls of one handler with nothing else going on, as weakest preconditions of `Ends`
(`Concurrent/Sequential.lean`). A call that may fail, one in `F`, contributes the condition for its
failure; with `World.noFault` these conditions vanish under `simp`.

Without other writers the optimistic update of `UpdateObj` is a read followed by a write
(`ends_updateObjMsg`): its loop is run exactly once.
-/

namespace SharWorkflow

open Concurrent Discipline Protocol World

attribute [simp] ends_ret ends_pure ends_throw ends_seq ends_ite ends_run_ite

@[simp]
theorem World.noFault_iff (o : Op) : noFault o ↔ False := Iff.rfl

@[simp]
theorem World.empty_value (l : Loc) : ({} : World).value l = none := rfl

variable {F : Op → Prop} {X : Prop} {w : World} {α β ε : Type}

/-- Choices under which a program returns, with a world and a result that pass the test. -/
theorem World.exists_exec_of_reaches (F : Op → Prop) [DecidablePred F] (w : World) (p : P α)
    (choices : List Choice) (test : World → α → Bool)
    (h : (Config.start w fun _ : Unit => p).reaches (World.pick F) (choices.map ((), ·))
      (fun c => (c.threads ()).result?.any (test c.state)) = true) :
    ∃ w' a, Exec (env F) w p w' a ∧ test w' a = true := by
  obtain ⟨c, hrun, htest⟩ := exists_run_of_reaches F _ _
    (fun c => (c.threads ()).result?.any (test c.state))
    (by simpa only [Bool.decide_eq_true] using h)
  obtain ⟨a, ha, htest⟩ := (Option.any_eq_true _ _).1 htest
  exact ⟨c.state, a, exec_of_run hrun (Prog.eq_ret_of_result? ha), htest⟩

variable {p : P α}

/-- A program that keeps to a conduct, alone: the invariant that enforces the conduct holds at the
end, and the result is as it should be. -/
theorem Conduct.Enforced.exec {L : Type} {C : Conduct L} {I : World → L → Prop}
    (h : C.Enforced F (fun _ _ => True) (fun s _ g => I s (g ())) ()) {Q : L → α → Prop} {l : L}
    {w' : World} {a : α} (hp : C.Keeps Q l p) (hI : I w l) (hexec : Exec (env F) w p w' a) :
    ∃ l', I w' l' ∧ Q l' a := by
  obtain ⟨t, hrun⟩ := Exec.run (c := Config.start w fun _ : Unit => p) (i := ()) hexec
  obtain ⟨g, hsound⟩ := sound_of_run (sound_start (g := fun _ => l) hI fun _ =>
    hp.safe h.governs) hrun (guarded_true _)
  have hreturned : Function.update (fun _ : Unit => p) () (.ret a) () = .ret a :=
    Function.update_self ..
  obtain ⟨s, -, hQ⟩ := hsound.result (i := ()) hreturned
  exact ⟨g (), hsound.inv, hQ⟩

/-! ### Programs -/

theorem ends_perform {o : Op} (h : o ≠ .panic) {Q : World → Ans o → Prop} :
    Ends (env F) X Q w (Prog.perform o) ↔ ∀ r w', env F o w r w' → Q w' r := by
  refine ends_call.trans ⟨fun ⟨_, h⟩ r w' hr => ends_ret.1 (h r w' hr), fun hQ => ⟨?_, ?_⟩⟩
  · exact .inr (exists_answer F o w h)
  · exact fun r w' hr => ends_ret.2 (hQ r w' hr)

variable {x : Act α}

@[simp]
theorem ends_ending {Q : World → Except ε α → Prop} {f : Err → ε} :
    Ends (env F) X Q w (Act.ending f x).run ↔
      Ends (env F) X (fun w r => Q w (r.mapError f)) w x.run := by
  refine ends_bind.trans ⟨fun h => h.mono fun w r hr => ?_, fun h => h.mono fun w r hr => ?_⟩
  all_goals cases r <;> simpa using hr

variable {Q : World → Except Err α → Prop}

@[simp]
theorem ends_wrap {text : String} : Ends (env F) X Q w (Act.wrap text x).run ↔
      Ends (env F) X (fun w r => Q w (r.mapError (.wrap text))) w x.run := ends_ending

@[simp]
theorem ends_mapError {f : Err → Err} : Ends (env F) X Q w (Act.mapError f x).run ↔
      Ends (env F) X (fun w r => Q w (r.mapError f)) w x.run := ends_ending

@[simp]
theorem ends_attempt {Q : World → Except Err (Except Err α) → Prop} :
    Ends (env F) X Q w (Act.attempt x).run ↔
      Ends (env F) X (fun w r => Q w (.ok r)) w x.run := by
  refine ends_bind.trans ⟨fun h => h.mono fun w r hr => ?_, fun h => h.mono fun w r hr => ?_⟩
  all_goals simpa using hr

@[simp]
theorem ends_optional {Q : World → Except Err (Option α) → Prop} {absent : List Sentinel} :
    Ends (env F) X Q w (Act.optional absent x).run ↔
      Ends (env F) X (fun w r => Q w (optionalResult absent r)) w x.run := by
  refine ends_bind.trans ⟨fun h => h.mono fun w r hr => ?_, fun h => h.mono fun w r hr => ?_⟩
  all_goals
    cases r with
    | ok a => simpa using hr
    | error e => by_cases he : absent.any e.is = true <;> simpa [he] using hr

@[simp]
theorem ends_acking {Q : World → Except (Bool × Err) α → Prop} {ack : Bool} :
    Ends (env F) X Q w (Act.acking ack x).run ↔
      Ends (env F) X (fun w r => Q w (r.mapError (Prod.mk ack))) w x.run := ends_ending

@[simp]
theorem ends_ofExcept {r : Except Err α} :
    Ends (env F) X Q w (Act.ofExcept r).run ↔ Q w r := ends_ret

@[simp]
theorem ends_liftM {Q : World → Except ε α → Prop} :
    Ends (env F) X Q w (liftM p : ExceptT ε P α).run ↔
      Ends (env F) X (fun w a => Q w (.ok a)) w p := by
  refine (ends_bind (p := p)).trans
    ⟨fun h => h.mono fun w a ha => ?_, fun h => h.mono fun w a ha => ?_⟩
  · exact (ends_ret (Q := Q)).1 ha
  · exact (ends_ret (Q := Q)).2 ha

/-- A panic is let pass under `X` only. -/
@[simp]
theorem ends_panic : Ends (env F) X Q w (Act.panic : Act α).run ↔ X := by
  refine ends_call.trans ⟨fun ⟨h, _⟩ => h.resolve_right fun ⟨r, _⟩ => r.elim, fun h => ?_⟩
  exact ⟨.inl h, fun r => r.elim⟩

@[simp]
theorem Act.deref_some (a : α) : Act.deref (some a) = pure a := rfl

@[simp]
theorem Act.deref_none : Act.deref (none : Option α) = Act.panic := rfl

@[simp]
theorem ends_deref {x : Option α} : Ends (env F) X Q w (Act.deref x).run ↔
      (x = none → X) ∧ ∀ a, x = some a → Q w (.ok a) := by
  cases x with
  | none => simp [Act.deref]
  | some a => simp [Act.deref]

variable {Q : World → Except Err Unit → Prop}

@[simp]
theorem ends_when {c : Prop} [Decidable c] {x : Act Unit} :
    Ends (env F) X Q w (Act.when c x).run ↔
      (c → Ends (env F) X Q w x.run) ∧ (¬ c → Q w (.ok ())) := by
  by_cases hc : c <;> simp [Act.when, hc]

/-- A list of programs that each leave the world as it is. -/
theorem ends_mapM {f : β → Act α} {g : β → α} (xs : List β)
    (h : ∀ x, Ends (env F) X (fun w' r => w' = w ∧ r = .ok (g x)) w (f x).run) :
    Ends (env F) X (fun w' r => w' = w ∧ r = .ok (xs.map g)) w (xs.mapM f).run := by
  have := @Prog.lawfulMonad Op Ans
  induction xs with
  | nil => exact ends_ret.2 ⟨rfl, rfl⟩
  | cons x xs ih =>
    rw [List.mapM_cons, ends_seq]
    refine (h x).mono ?_
    rintro _ r ⟨rfl, rfl⟩
    refine ends_seq.2 (ih.mono ?_)
    rintro _ r ⟨rfl, rfl⟩
    exact ends_pure.2 ⟨rfl, rfl⟩

/-! ### Calls -/

variable {ns : String}

@[simp]
theorem ends_kvsFor : Ends (env F) X Q w (kvsFor ns).run ↔
      Q w (.ok ()) ∧ (F (.kvsFor ns) → ∀ text, Q w (.error (.nats text))) := by
  refine (ends_perform (o := .kvsFor ns) nofun).trans
    ⟨fun h => ⟨h _ _ ⟨rfl, .inl rfl⟩, fun hF text => h _ _ ⟨rfl, .inr ⟨hF, text, rfl⟩⟩⟩, ?_⟩
  rintro ⟨hok, hfail⟩ r w' ⟨rfl, rfl | ⟨hF, text, rfl⟩⟩
  · exact hok
  · exact hfail hF text

variable {l : Loc}

@[simp]
theorem ends_kvGet {Q : World → Except Err (Entry l.Val) → Prop} :
    Ends (env F) X Q w (kvGet l).run ↔
      (w.value l = none → Q w (.error (.sentinel .keyNotFound))) ∧
        (∀ v, w.value l = some v → ∀ isNil, (isNil = true → v = l.bucket.zero) →
          Q w (.ok ⟨v, isNil, w.revision l⟩)) ∧
        (F (.get l) → ∀ text, Q w (.error (.nats text))) := by
  refine (ends_perform (o := .get l) nofun).trans ⟨fun h => ⟨fun hnone => ?_,
    fun v hv isNil hnil => ?_, fun hF text => ?_⟩, ?_⟩
  · exact h _ _ ⟨rfl, .inl ⟨hnone, rfl⟩⟩
  · exact h _ _ ⟨rfl, .inr (.inl ⟨v, isNil, hv, hnil, rfl⟩)⟩
  · exact h _ _ ⟨rfl, .inr (.inr ⟨hF, text, rfl⟩)⟩
  · rintro ⟨hmissing, hok, hfail⟩ r w'
      ⟨rfl, ⟨hnone, rfl⟩ | ⟨v, isNil, hv, hnil, rfl⟩ | ⟨hF, text, rfl⟩⟩
    · exact hmissing hnone
    · exact hok v hv isNil hnil
    · exact hfail hF text

variable {v : l.Val}

/-- The outcomes of a call without a result: it has had its effect, or it has failed. -/
theorem forall_outcome {w₁ : World} {c : Prop} :
    (∀ r w', (r = .ok () ∧ w' = w₁) ∨ (w' = w ∧ c ∧ ∃ text, r = .error (.nats text)) → Q w' r) ↔
      Q w₁ (.ok ()) ∧ (c → ∀ text, Q w (.error (.nats text))) := by
  constructor
  · exact fun h => ⟨h _ _ (.inl ⟨rfl, rfl⟩), fun hc text => h _ _ (.inr ⟨rfl, hc, text, rfl⟩)⟩
  · rintro ⟨hok, hfail⟩ r w' (⟨rfl, rfl⟩ | ⟨rfl, hc, text, rfl⟩)
    · exact hok
    · exact hfail hc text

@[simp]
theorem ends_kvPut : Ends (env F) X Q w (kvPut l v).run ↔
      Q (w.put l v) (.ok ()) ∧ (F (.put l v) → ∀ text, Q w (.error (.nats text))) :=
  (ends_perform (o := .put l v) nofun).trans forall_outcome

@[simp]
theorem ends_kvUpdate {rev : Nat} : Ends (env F) X Q w (kvUpdate l v rev).run ↔
      (w.revision l = rev → Q (w.put l v) (.ok ())) ∧
        (w.revision l ≠ rev → Q w (.error (.sentinel .wrongLastSequence))) ∧
        (F (.update l v rev) → ∀ text, Q w (.error (.nats text))) := by
  refine (ends_perform (o := .update l v rev) nofun).trans ⟨fun h => ⟨fun hrev => ?_,
    fun hrev => ?_, fun hF text => ?_⟩, ?_⟩
  · exact h _ _ (.inl ⟨hrev, rfl, rfl⟩)
  · exact h _ _ (.inr (.inl ⟨hrev, rfl, rfl⟩))
  · exact h _ _ (.inr (.inr ⟨rfl, hF, text, rfl⟩))
  · rintro ⟨hok, hconflict, hfail⟩ r w' (⟨hrev, rfl, rfl⟩ | ⟨hrev, rfl, rfl⟩ | ⟨rfl, hF, text, rfl⟩)
    · exact hok hrev
    · exact hconflict hrev
    · exact hfail hF text

@[simp]
theorem ends_kvDelete : Ends (env F) X Q w (kvDelete l).run ↔
      Q (w.clear l) (.ok ()) ∧ (F (.delete l) → ∀ text, Q w (.error (.nats text))) :=
  (ends_perform (o := .delete l) nofun).trans forall_outcome

/-- The world after a fresh id was issued. -/
def World.issue (w : World) (id : String) : World := { w with ids := id :: w.ids }

@[simp]
theorem ends_newId {Q : World → Except Err String → Prop} :
    Ends (env F) X Q w newId.run ↔ ∀ id, w.FreshId id → Q (w.issue id) (.ok id) := by
  refine ends_bind.trans ((ends_perform (o := .newId) nofun).trans
    ⟨fun h id hid => ends_ret.1 (h id _ ⟨hid, rfl⟩), ?_⟩)
  rintro h r w' ⟨hid, rfl⟩
  exact ends_ret.2 (h r hid)

@[simp]
theorem ends_now {Q : World → Except Err Int → Prop} :
    Ends (env F) X Q w now.run ↔ ∀ t : Int, Q w (.ok t) := by
  refine ends_bind.trans ((ends_perform (o := .now) nofun).trans
    ⟨fun h t => ends_ret.1 (h t w rfl), ?_⟩)
  rintro h t w' rfl
  exact ends_ret.2 (h t)

@[simp]
theorem ends_mapOrder {keys : List String} {Q : World → Except Err (List String) → Prop} :
    Ends (env F) X Q w (mapOrder keys).run ↔
      ∀ order : List String, order.Perm keys → Q w (.ok order) := by
  refine ends_bind.trans ((ends_perform (o := .mapOrder keys) nofun).trans
    ⟨fun h order hperm => ends_ret.1 (h order w ⟨rfl, hperm⟩), ?_⟩)
  rintro h order w' ⟨rfl, hperm⟩
  exact ends_ret.2 (h order hperm)

@[simp]
theorem ends_mark {f : String} : Ends (env F) X Q w (mark f).run ↔ Q w (.ok ()) := by
  refine ends_bind.trans ((ends_perform (o := .mark f) nofun).trans
    ⟨fun h => ends_ret.1 (h () w rfl), ?_⟩)
  rintro h ⟨⟩ w' rfl
  exact ends_ret.2 h

/-! ### Load, save and delete -/

@[simp]
theorem ends_nsKVs :
    Ends (env F) X Q w (nsKVs ns).run ↔ Q w (.ok ()) ∧ (F (.kvsFor ns) → ∀ text,
      Q w (.error (.wrap ("get KVs for ns " ++ ns) (.nats text)))) := by
  simp [nsKVs]

/-- The value of an entry does not depend on how it is encoded. -/
theorem forall_isNil_iff {p : l.Val → Prop} :
    (∀ v, w.value l = some v → ∀ isNil : Bool, (isNil = true → v = l.bucket.zero) → p v) ↔
      ∀ v, w.value l = some v → p v :=
  ⟨fun h v hv => h v hv false nofun, fun h v hv _ _ => h v hv⟩

@[simp]
theorem ends_load {Q : World → Except Err l.Val → Prop} : Ends (env F) X Q w (load l).run ↔
      (w.value l = none → Q w (.error (.wrap "load value from KV" (.sentinel .keyNotFound)))) ∧
        (∀ v, w.value l = some v → Q w (.ok v)) ∧
        (F (.get l) → ∀ text, Q w (.error (.wrap "load value from KV" (.nats text)))) := by
  simp only [load, ends_wrap, ends_seq, ends_kvGet, ends_pure, mapError_ok, mapError_error,
    forall_isNil_iff]

@[simp]
theorem ends_loadObj {Q : World → Except Err l.Val → Prop} :
    Ends (env F) X Q w (loadObj l).run ↔ (w.value l = none → Q w (.error (loadNotFound l))) ∧
        (∀ v, w.value l = some v → Q w (.ok v)) ∧
        (F (.get l) → ∀ text, Q w (.error (Conduct.loadFailed l text))) := by
  simp only [loadObj, ends_wrap, ends_load, mapError_ok, mapError_error]
  exact Iff.rfl

@[simp]
theorem ends_saveObj : Ends (env F) X Q w (saveObj l v).run ↔ Q (w.put l v) (.ok ()) ∧
        (F (.put l v) → ∀ text, Q w (.error (.wrap "save kv" (.nats text)))) := by
  simp [saveObj, save]

@[simp]
theorem ends_delete : Ends (env F) X Q w (delete l).run ↔ Q (w.clear l) (.ok ()) ∧
        (F (.delete l) → ∀ text, Q w (.error (.wrap "delete key" (.nats text)))) := by
  simp [delete]

/-! ### Update -/

variable {msg : l.Val} {f : l.Val → Except Err l.Val}

/-- Alone, the loop of `updateKV` is run once: the revision it has read is still the last one. -/
@[simp]
theorem ends_updateKV {Q : World → Except Err Unit × l.Val → Prop} :
    Ends (env F) X Q w (updateKV l msg f) ↔ (w.value l = none →
        Q w (.error (.wrap "get value to update" (.sentinel .keyNotFound)), msg)) ∧
        (∀ v, w.value l = some v → match f v with
          | .error e =>
            Q w (.error (.wrap "update function" (.wrap "update function" e)), v)
          | .ok uv =>
            Q (w.put l uv) (.ok (), uv) ∧ (F (.update l uv (w.revision l)) → ∀ text,
              Q w (.error (.wrap "update kv" (.nats text)), uv))) ∧
        (F (.get l) → ∀ text, Q w (.error (.wrap "get value to update" (.nats text)), msg)) := by
  rw [updateKV, ends_loop, Prog.unroll, ends_bind, Prog.bind_eq_bind, ends_bind, ends_kvGet]
  refine and_congr (by simp) (and_congr ?_ (by simp))
  refine Iff.trans ?_ forall_isNil_iff
  refine forall_congr' fun v => imp_congr_right fun _ => forall_congr' fun isNil =>
    imp_congr_right fun _ => ?_
  cases hf : f v with
  | error e => simp [hf]
  | ok uv => simp [hf, ends_bind]

/-- `UpdateObj` saves its message first when it finds nothing, or the encoding of nothing. -/
theorem ends_updateObjMsg {Q : World → Except Err Unit × l.Val → Prop} :
    Ends (env F) X Q w (updateObjMsg l msg f) ↔
      (w.value l = none ∨ w.value l = some l.bucket.zero →
        Ends (env F) X Q (w.put l msg) (updateKV l msg f) ∧ (F (.put l msg) → ∀ text,
            Q w (.error (.wrap "save during update object" (.wrap "save kv" (.nats text))), msg))) ∧
        (w.value l ≠ none ∨ F (.get l) → Ends (env F) X Q w (updateKV l msg f)) := by
  have hsaved {k : Except Err Unit → P (Except Err Unit × l.Val)}
      (herror : ∀ e, k (.error e) = .ret (.error (.wrap "save during update object" e), msg))
      (hok : k (.ok ()) = updateKV l msg f) :
      Ends (env F) X Q w ((saveObj l msg).run.bind k) ↔
      Ends (env F) X Q (w.put l msg) (updateKV l msg f) ∧ (F (.put l msg) → ∀ text,
        Q w (.error (.wrap "save during update object" (.wrap "save kv" (.nats text))), msg)) := by
    simp only [ends_bind, ends_saveObj, herror, hok, ends_ret]
  rw [updateObjMsg, Prog.bind_eq_bind, ends_bind, ends_kvGet]
  constructor
  · rintro ⟨hnone, hsome, hfail⟩
    refine ⟨?_, ?_⟩
    · rintro (hv | hv)
      · exact (hsaved (fun _ => rfl) rfl).1 (hnone hv)
      · exact (hsaved (fun _ => rfl) rfl).1 (hsome _ hv true fun _ => rfl)
    · rintro (hv | hF)
      · obtain ⟨v, hv⟩ := Option.ne_none_iff_exists'.1 hv
        exact hsome v hv false (by simp)
      · exact hfail hF ""
  · rintro ⟨habsent, hthere⟩
    refine ⟨fun hv => (hsaved (fun _ => rfl) rfl).2 (habsent (.inl hv)), ?_,
      fun hF _ => hthere (.inr hF)⟩
    intro v hv isNil hnil
    cases isNil with
    | true => exact (hsaved (fun _ => rfl) rfl).2 (habsent (.inr (hnil rfl ▸ hv)))
    | false => exact hthere (.inl (hv ▸ Option.some_ne_none v))

@[simp]
theorem ends_updateObj {Q : World → Except Err l.Val → Prop} :
    Ends (env F) X Q w (updateObj l msg f).run ↔ Ends (env F) X (fun w r => match r with
        | (.ok _, v) => Q w (.ok v)
        | (.error e, _) => Q w (.error e)) w (updateObjMsg l msg f) := by
  refine ends_bind.trans ⟨fun h => h.mono ?_, fun h => h.mono ?_⟩
  · rintro w ⟨_ | _, v⟩ hr <;> simpa using hr
  · rintro w ⟨_ | _, v⟩ hr <;> simpa using hr

end SharWorkflow
