import SharWorkflow.Nats.Keeps
import SharWorkflow.Concurrent.Sequential

/-!
# The footprint of a program

Which locations a program reads, and what it writes there. `Touches T x` says that every read of `x`
is one of the footprint `T`, and so is every value it writes at a location, where `none` stands for
a deletion. A footprint may rely on something that is known of the answers to the calls, by default
on nothing. It is a discipline without a state, so the rules of `Nats/Keeps.lean` show the footprint
of a program from its shape.

* `Footprint.invariant`: what the calls of a footprint keep holds after an execution.
* `Footprint.frame`: **what is not written stays**. After an execution a location holds what it
  held, or a value of the footprint.
* `Footprint.keeps_avoiding`: a program that does nothing in a bucket keeps every discipline that is
  about the bucket only, and leaves the state of the discipline as it is.
-/

namespace SharWorkflow

open Concurrent Discipline World

/-- What a program may read and write, and what is known of the answers that it gets. -/
structure Footprint where
  reads : Loc → Prop
  writes : (l : Loc) → Option l.Val → Prop
  /-- the buckets whose keys are searched or listed -/
  lists : Bucket → Prop := fun _ => True
  /-- whether definitions are put into the cache -/
  caches : Prop := True
  answers : (o : Op) → Ans o → Prop := fun _ _ => True

/-- The call reads, or writes, what the footprint allows. -/
def Op.within (T : Footprint) : Op → Prop
  | .get l => T.reads l
  | .put l v | .create l v | .update l v _ => T.writes l (some v)
  | .delete l => T.writes l none
  | .searchKeys _ b _ | .keys _ b => T.lists b
  | .cacheSet _ _ => T.caches
  | _ => True

/-- The calls of a footprint. -/
def Footprint.discipline (T : Footprint) : Discipline Op Ans Unit :=
  ⟨fun _ o => o.within T, fun _ o r _ => T.answers o r⟩

/-- Every call of the program is one of the footprint. -/
abbrev Touches {α ε : Type} (T : Footprint) (x : ExceptT ε P α) : Prop :=
  Yields T.discipline (fun _ => True) x

/-! ### The frame rule -/

variable {α : Type} {T : Footprint} {Q : α → Prop} {p : P α} {o : Op} {F : Op → Prop} {w w' : World}

/-- After a call a location holds what it held, or what the call has written. -/
theorem Op.within.value {r : Ans o} (h : o.within T)
    (henv : env F o w r w') (l : Loc) : w'.value l = w.value l ∨ T.writes l (w'.value l) := by
  cases effect_of_env henv with
  | put l' v | create l' v | update l' v =>
    by_cases hl : l = l'
    · subst hl
      exact .inr ((put_value_self ..).symm ▸ h)
    · exact .inl (put_value_of_ne _ _ hl)
  | delete l' =>
    by_cases hl : l = l'
    · subst hl
      exact .inr ((clear_value_self ..).symm ▸ h)
    · exact .inl (clear_value_of_ne _ hl)
  | _ => exact .inl rfl

/-- A footprint that leaves the cache alone. -/
theorem Op.within.cache {r : Ans o} (h : o.within T) (henv : env F o w r w') (hT : ¬ T.caches) :
    w'.cache = w.cache := by
  cases effect_of_env henv with
  | cacheSet | cacheLost => exact absurd h hT
  | _ => rfl

theorem Op.within.deletes {r : Ans o} (h : o.within T) (hdelete : isDeleteAt l o r = true) :
    T.writes l none := by
  cases o with
  | delete l' =>
    cases r with
    | error e => cases hdelete
    | ok _ => exact of_decide_eq_true hdelete ▸ h
  | _ => cases hdelete

theorem ids_subset_of_exec {a : α} (hexec : Exec (env F) w p w' a) : w.ids ⊆ w'.ids := by
  induction hexec with
  | ret => exact List.Subset.refl _
  | call answered _ ih => exact List.Subset.trans (ids_subset_of_env answered) ih
  | loop _ ih => exact ih

/-- **An invariant of a footprint.** A condition on the state that the calls of the footprint keep,
and under which their answers are as the footprint relies on, holds after an execution. What was
issued by a call is among the ids at the end. -/
theorem Footprint.invariant {a : α} {I : World → Prop}
    (hcall : ∀ {o v r v'}, o.within T → env F o v r v' → v'.ids ⊆ w'.ids → I v →
      T.answers o r ∧ I v')
    (h : T.discipline.Ensures Q p) (hexec : Exec (env F) w p w' a) (hI : I w) : I w' := by
  induction hexec with
  | ret => exact hI
  | call answered rest ih =>
    have hnext := hcall h.progress.1 answered (ids_subset_of_exec rest) hI
    exact ih hcall (h.progress.2 _ () hnext.1) hnext.2
  | loop _ ih => exact ih hcall h.progress hI

/-- **The frame rule.** After an execution a location holds what it held, or a value of the
footprint, and the cache is as it was if the footprint leaves it alone. -/
theorem Footprint.frame {a : α}
    (hanswers : ∀ {o v r v'}, env F o v r v' → w.ids ⊆ v.ids → v'.ids ⊆ w'.ids →
      (∀ l, v.value l = w.value l ∨ T.writes l (v.value l)) → T.answers o r)
    (h : T.discipline.Ensures Q p) (hexec : Exec (env F) w p w' a) :
    (∀ l, w'.value l = w.value l ∨ T.writes l (w'.value l)) ∧
      (¬ T.caches → w'.cache = w.cache) := by
  refine (T.invariant (I := fun v => w.ids ⊆ v.ids ∧
    (∀ l, v.value l = w.value l ∨ T.writes l (v.value l)) ∧ (¬ T.caches → v.cache = w.cache)) ?_
    h hexec ⟨List.Subset.refl _, fun _ => .inl rfl, fun _ => rfl⟩).2
  rintro o v r v' ho henv hlater ⟨hids, hvalue, hcache⟩
  refine ⟨hanswers henv hids hlater hvalue, List.Subset.trans hids (ids_subset_of_env henv),
    fun l => ?_, fun hT => (ho.cache henv hT).trans (hcache hT)⟩
  rcases ho.value henv l with hsame | hwritten
  · rw [hsame]
    exact hvalue l
  · exact .inr hwritten

/-! ### Programs that leave a bucket alone -/

/-- The calls that are not in the bucket. -/
def Footprint.avoiding (b : Bucket) : Footprint where
  reads l := l.bucket ≠ b
  writes l _ := l.bucket ≠ b

/-- **A program that avoids a bucket** keeps a discipline that takes no notice of other calls, and
leaves its state alone. -/
theorem Footprint.keeps_avoiding {L : Type} {D : Discipline Op Ans L} {b : Bucket} {l : L}
    (hmay : ∀ {o : Op}, o.within (avoiding b) → D.may l o)
    (hstep : ∀ {o : Op} {r l'}, o.within (avoiding b) → D.step l o r l' → l' = l)
    (hp : (avoiding b).discipline.Ensures Q p) : D.Keeps (fun l' _ => l' = l) l p := by
  refine Keeps.mono (hp.embed (I := fun l' => l' = l) ?_ ?_ rfl) fun _ _ h => h.1
  · rintro l' o rfl ho
    exact hmay ho
  · rintro l' o r l'' rfl ho hr
    exact ⟨trivial, hstep ho hr⟩

end SharWorkflow
