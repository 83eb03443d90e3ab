import SharWorkflow.Engine.Alone
import SharWorkflow.Engine.Rules

/-!
# The ids of owners

`OwnerID` gives every name an id of its own on first use. It reads the id of the name, and when
there is none it takes a fresh one, writes it under the name, and then writes the name under the id.
None of this is conditional. Two first uses at the same time both find no id and both write one, and
a use that comes between the two writes of another returns an id that has no name yet.

* `ownerKey`: the name under which an id is stored.
* `World.OwnersNamed`: a store with an owner's name for every id, as it is when no call is under
  way.
* `OwnersAgree`: **the ids agree**, equal for equal names and different for different ones, and each
  leads back to its name.
* `Undisturbed`: the condition on the steps of a run. An id is written only under a name without
  one, and is read only when it has its name.
* `owners_agree`: in every run whose steps are undisturbed the ids agree, in every state.
* `owners_race`: two first uses of one name get different ids.
-/

namespace SharWorkflow

open Concurrent Protocol World

/-! ### Agreement -/

/-- The name under which the id of an owner is stored. -/
def ownerKey (name : String) : String := if name = "" then "AnyUser" else name

/-- The id of a name. -/
abbrev idLoc (ns name : String) : Loc := ⟨ns, .ownerID, name⟩

/-- The name of an id. -/
abbrev nameLoc (ns id : String) : Loc := ⟨ns, .ownerName, id⟩

/-- Every id that is stored was issued, and leads back to its name. -/
structure World.OwnersNamed (w : World) (ns : String) : Prop where
  named : ∀ n (id : String), w.value (idLoc ns n) = some id → w.value (nameLoc ns id) = some n
  issued : ∀ id, w.value (nameLoc ns id) ≠ none → id ∈ w.ids

variable {ι : Type}

/-- **The ids agree.** -/
structure OwnersAgree (ns : String) (name : ι → String)
    (c : Config ι Op Ans World (Except Err String)) : Prop where
  ids : ∀ i j id id', c.threads i = .ret (.ok id) → c.threads j = .ret (.ok id') →
    (id = id' ↔ ownerKey (name i) = ownerKey (name j))
  names : ∀ i id, c.threads i = .ret (.ok id) → Ends (env noFault) False
    (fun _ r => r = .ok (ownerKey (name i))) c.state (ownerName ns id).run

/-- An id is written only under a name that has none, and is read only when it has its name. -/
def Undisturbed (ns : String) (e : WEvent ι) (_ : List (WEvent ι)) : Prop :=
  match e.op, e.answer with
  | .put ⟨_, .ownerID, n⟩ _, _ => e.before.value (idLoc ns n) = none
  | .get ⟨_, .ownerID, _⟩, .ok entry => e.before.value (nameLoc ns entry.value) ≠ none
  | _, _ => True

instance (ns : String) (e : WEvent ι) (t : List (WEvent ι)) : Decidable (Undisturbed ns e t) := by
  unfold Undisturbed
  split <;> infer_instance

/-! ### The invariant -/

/-- How far a call has come. -/
inductive OwnerStage
  | reading
  | issued (id : String)
  | written (id : String)
  | done (id : String)

/-- What a call has achieved, for the name `n`. -/
def OwnerStage.Holds (ns : String) (w : World) (n : String) : OwnerStage → Prop
  | reading => True
  | issued id => id ∈ w.ids ∧ (∀ m, w.value (idLoc ns m) ≠ some id) ∧ w.value (nameLoc ns id) = none
  | written id => w.value (idLoc ns n) = some id
  | done id => w.value (idLoc ns n) = some id ∧ w.value (nameLoc ns id) = some n

/-- The invariant: no id belongs to two names, an id leads back to its own name or to none, and
every call holds what it has achieved. -/
structure OwnersInv (ns : String) (name : ι → String) (w : World) (g : ι → OwnerStage) : Prop where
  injective : ∀ n n' (id : String), w.value (idLoc ns n) = some id →
    w.value (idLoc ns n') = some id → n = n'
  known : ∀ n (id : String), w.value (idLoc ns n) = some id → id ∈ w.ids
  back : ∀ n m (id : String), w.value (idLoc ns n) = some id →
    w.value (nameLoc ns id) = some m → m = n
  nameKnown : ∀ id, w.value (nameLoc ns id) ≠ none → id ∈ w.ids
  stage : ∀ i, (g i).Holds ns w (ownerKey (name i))
  distinct : ∀ i j id, g i = .issued id → g j = .issued id → i = j

variable {ns : String} {name : ι → String} {w w' : World} {g : ι → OwnerStage}

/-- The calls hold what they have achieved as long as the tables stay as they are. -/
theorem OwnersInv.congr (h : OwnersInv ns name w g) (hvalue : ∀ l, w'.value l = w.value l)
    (hids : w.ids ⊆ w'.ids) : OwnersInv ns name w' g where
  injective := by simpa only [hvalue] using h.injective
  known n id hid := hids (h.known n id (hvalue _ ▸ hid))
  back := by simpa only [hvalue] using h.back
  nameKnown id hid := hids (h.nameKnown id (hvalue _ ▸ hid))
  stage i := by
    have hi := h.stage i
    cases hg : g i with
    | reading => trivial
    | issued id =>
      simp only [hg, OwnerStage.Holds] at hi
      exact ⟨hids hi.1, fun m => by rw [hvalue]; exact hi.2.1 m, by rw [hvalue]; exact hi.2.2⟩
    | written id | done id => simpa only [hg, OwnerStage.Holds, hvalue] using hi
  distinct := h.distinct

variable {F : Op → Prop}

/-- The invariant does not look at the trace. -/
def ownersInv (ns : String) (name : ι → String) (w : World) (_ : List (WEvent ι))
    (g : ι → OwnerStage) : Prop := OwnersInv ns name w g

theorem quietInv_owners : QuietInv F (ownersInv ns name) :=
  fun h henv hquiet => h.congr (value_of_quiet henv hquiet) (ids_subset_of_env henv)

variable [DecidableEq ι] {i : ι} {id : String}

/-- A step of one call. What the others have achieved stays, and no two calls hold the same fresh
id. -/
theorem OwnersInv.stage_update (h : ∀ j, j ≠ i → (g j).Holds ns w' (ownerKey (name j)))
    {stage : OwnerStage} (hi : stage.Holds ns w' (ownerKey (name i))) (j : ι) :
    (Function.update g i stage j).Holds ns w' (ownerKey (name j)) := by
  by_cases hj : j = i
  · subst hj
    rwa [Function.update_self]
  · rw [Function.update_of_ne hj]
    exact h j hj

theorem OwnersInv.distinct_update (h : OwnersInv ns name w g) {stage : OwnerStage}
    (hstage : ∀ id, stage = .issued id → ∀ j, j ≠ i → g j ≠ .issued id) (j k : ι) (id : String)
    (hj : Function.update g i stage j = .issued id)
    (hk : Function.update g i stage k = .issued id) : j = k := by
  by_cases hji : j = i
  · by_cases hki : k = i
    · rw [hji, hki]
    · subst hji
      rw [Function.update_self] at hj
      rw [Function.update_of_ne hki] at hk
      exact absurd hk (hstage id hj k hki)
  · rw [Function.update_of_ne hji] at hj
    by_cases hki : k = i
    · subst hki
      rw [Function.update_self] at hk
      exact absurd hj (hstage id hk j hji)
    · rw [Function.update_of_ne hki] at hk
      exact h.distinct j k id hj hk

open OwnersInv

/-- A fresh id belongs to no name and to no other call. -/
theorem OwnersInv.issue (h : OwnersInv ns name w g) (hfresh : w.FreshId id) :
    OwnersInv ns name (w.issue id) (Function.update g i (.issued id)) := by
  have hsame : OwnersInv ns name (w.issue id) g :=
    h.congr (fun _ => rfl) (List.subset_cons_self _ _)
  have hunknown : id ∉ w.ids := hfresh.1
  refine { hsame with stage := ?_, distinct := ?_ }
  · refine stage_update (fun j _ => hsame.stage j) ⟨List.mem_cons_self, fun m hm => ?_, ?_⟩
    · exact hunknown (h.known m id hm)
    · exact by_contra fun hne => hunknown (h.nameKnown id hne)
  · refine hsame.distinct_update fun id' heq j _ hj => ?_
    obtain rfl : id = id' := by simpa using heq
    have hheld := h.stage j
    rw [hj] at hheld
    exact hunknown hheld.1

/-- The fresh id is written under the name. -/
theorem OwnersInv.write (h : OwnersInv ns name w g) (hi : g i = .issued id)
    (hnone : w.value (idLoc ns (ownerKey (name i))) = none) :
    OwnersInv ns name (w.put (idLoc ns (ownerKey (name i))) id)
      (Function.update g i (.written id)) := by
  have hheld := h.stage i
  rw [hi] at hheld
  obtain ⟨hissued, hunused, hunnamed⟩ := hheld
  set k := ownerKey (name i) with hk
  have hids : ∀ n, (w.put (idLoc ns k) id).value (idLoc ns n) =
      if n = k then some id else w.value (idLoc ns n) := fun n => by
    by_cases hn : n = k
    · rw [hn, put_value_self, if_pos rfl]
    · simp [hn]
  have hnames (n : String) : (w.put (idLoc ns k) id).value (nameLoc ns n) =
      w.value (nameLoc ns n) := put_value_of_ne w _ (by simp)
  refine ⟨fun n n' id' hn hn' => ?_, fun n id' hn => ?_, fun n m id' hn hm => ?_, fun id' hn => ?_,
    stage_update (fun j hj => ?_) ((hids k).trans (if_pos rfl)),
    h.distinct_update fun _ h => by simp at h⟩
  · rw [hids] at hn hn'
    split_ifs at hn hn' with h₁ h₂ h₂
    · rw [h₁, h₂]
    · obtain rfl := Option.some.inj hn
      exact absurd hn' (hunused n')
    · obtain rfl := Option.some.inj hn'
      exact absurd hn (hunused n)
    · exact h.injective n n' id' hn hn'
  · rw [hids] at hn
    split_ifs at hn with h₁
    · obtain rfl := Option.some.inj hn
      exact hissued
    · exact h.known n id' hn
  · rw [hids] at hn
    rw [hnames] at hm
    split_ifs at hn with h₁
    · obtain rfl := Option.some.inj hn
      rw [hunnamed] at hm
      cases hm
    · exact h.back n m id' hn hm
  · rw [hnames] at hn
    exact h.nameKnown id' hn
  · -- the other calls have their ids under other names
    have hj' := h.stage j
    have hother {id' : String} (hv : w.value (idLoc ns (ownerKey (name j))) = some id') :
        (w.put (idLoc ns k) id).value (idLoc ns (ownerKey (name j))) = some id' := by
      rw [hids, if_neg]
      · exact hv
      · rintro heq
        rw [heq, hnone] at hv
        cases hv
    cases hg : g j with
    | reading => trivial
    | issued id' =>
      simp only [hg, OwnerStage.Holds] at hj'
      refine ⟨hj'.1, fun m hm => ?_, by rw [hnames]; exact hj'.2.2⟩
      rw [hids] at hm
      split_ifs at hm with h₁
      · obtain rfl := Option.some.inj hm
        exact hj (h.distinct j i id hg hi)
      · exact hj'.2.1 m hm
    | written id' =>
      simp only [hg, OwnerStage.Holds] at hj'
      exact hother hj'
    | done id' =>
      simp only [hg, OwnerStage.Holds] at hj'
      exact ⟨hother hj'.1, by rw [hnames]; exact hj'.2⟩

/-- The name is written under the id. -/
theorem OwnersInv.giveName (h : OwnersInv ns name w g) (hi : g i = .written id) :
    OwnersInv ns name (w.put (nameLoc ns id) (ownerKey (name i)))
      (Function.update g i (.done id)) := by
  have hheld := h.stage i
  rw [hi] at hheld
  set k := ownerKey (name i) with hk
  have hnames : ∀ id', (w.put (nameLoc ns id) k).value (nameLoc ns id') =
      if id' = id then some k else w.value (nameLoc ns id') := fun id' => by
    by_cases hid : id' = id
    · rw [hid, put_value_self, if_pos rfl]
    · simp [hid]
  have hids (n : String) : (w.put (nameLoc ns id) k).value (idLoc ns n) = w.value (idLoc ns n) :=
    put_value_of_ne w _ (by simp)
  refine ⟨fun n n' id' hn hn' => ?_, fun n id' hn => ?_, fun n m id' hn hm => ?_, fun id' hn => ?_,
    stage_update (fun j hj => ?_) ⟨(hids k).trans hheld, by rw [hnames, if_pos rfl]⟩,
    h.distinct_update fun _ h => by simp at h⟩
  · rw [hids] at hn hn'
    exact h.injective n n' id' hn hn'
  · rw [hids] at hn
    exact h.known n id' hn
  · rw [hids] at hn
    rw [hnames] at hm
    split_ifs at hm with h₁
    · subst h₁
      obtain rfl := Option.some.inj hm
      exact h.injective _ _ _ hheld hn
    · exact h.back n m id' hn hm
  · rw [hnames] at hn
    split_ifs at hn with h₁
    · subst h₁
      exact h.known _ _ hheld
    · exact h.nameKnown id' hn
  · have hj' := h.stage j
    cases hg : g j with
    | reading => trivial
    | issued id' =>
      simp only [hg, OwnerStage.Holds] at hj'
      refine ⟨hj'.1, fun m => by rw [hids]; exact hj'.2.1 m, ?_⟩
      rw [hnames, if_neg]
      · exact hj'.2.2
      · rintro rfl
        exact hj'.2.1 k hheld
    | written id' =>
      simp only [hg, OwnerStage.Holds] at hj'
      exact (hids _).trans hj'
    | done id' =>
      simp only [hg, OwnerStage.Holds] at hj'
      refine ⟨(hids _).trans hj'.1, ?_⟩
      rw [hnames]
      split_ifs with h₁
      · subst h₁
        rw [h.injective _ _ _ hheld hj'.1]
      · exact hj'.2

/-- An id that has its name is found. -/
theorem OwnersInv.find (h : OwnersInv ns name w g)
    (hid : w.value (idLoc ns (ownerKey (name i))) = some id)
    (hnamed : w.value (nameLoc ns id) ≠ none) :
    OwnersInv ns name w (Function.update g i (.done id)) := by
  obtain ⟨m, hm⟩ := Option.ne_none_iff_exists'.1 hnamed
  obtain rfl := h.back _ m id hid hm
  refine { h with stage := ?_, distinct := ?_ }
  · exact stage_update (fun j _ => h.stage j) ⟨hid, hm⟩
  · exact h.distinct_update fun _ h => by simp at h

/-! ### The calls -/

/-- What a call returns is the id it has come to. -/
def OwnerResult (stage : OwnerStage) (_ : World) (r : Except Err String) : Prop :=
  ∀ id, r = .ok id → stage = .done id

/-- A first use: a fresh id is written, and then its name. -/
theorem safe_allocate {s₀ : World} (i : ι) :
    (natsProtocol F False (Undisturbed ns) (ownersInv ns name)).Safe i OwnerResult .reading s₀ (do
        let id ← newId
        Act.wrap "write owner ID" (kvPut ⟨ns, .ownerID, ownerKey (name i)⟩ id)
        Act.wrap "store owner name in kv" (kvPut ⟨ns, .ownerName, id⟩ (ownerKey (name i)))
        return id : Act String).run := by
  refine Safe.seq (Safe.bind (safe_call (Q := fun l _ id => l = .issued id) nofun ?_) ?_)
  · rintro s t g id s' hat ⟨hfresh, rfl⟩ -
    exact ⟨.issued id, issue hat.inv hfresh, .ret rfl⟩
  rintro _ s id rfl
  refine .ret (Safe.seq (safe_wrap (safe_kvPut quietInv_owners (fun hat hguard => ?_) ?_)))
  · refine ⟨.written id, write hat.inv hat.ghost hguard, ?_⟩
    refine Safe.seq (safe_wrap (safe_kvPut quietInv_owners (fun hat _ => ?_) ?_))
    · refine ⟨.done id, giveName hat.inv hat.ghost, .ret ?_⟩
      intro id' heq
      rw [Except.ok.inj heq]
    · exact fun _ _ _ => nofun
  · exact fun _ _ _ => nofun

theorem safe_ownerID {s₀ : World} (i : ι) :
    (natsProtocol F False (Undisturbed ns) (ownersInv ns name)).Safe i OwnerResult
      .reading s₀ (ownerID ns (name i)).run := by
  refine Safe.seq (safe_nsKVs quietInv_owners (fun _ => ?_) fun _ _ _ => nofun)
  refine Safe.seq (safe_attempt (safe_call nofun fun hat henv hguard => ?_))
  have hanswer := henv
  obtain ⟨rfl, ⟨hnone, rfl⟩ | ⟨id, isNil, hid, -, rfl⟩ | ⟨hF, text, rfl⟩⟩ := henv
  · exact Restores.quiet (I := ownersInv ns name) quietInv_owners hat hanswer trivial
      (.ret (safe_allocate i))
  · refine ⟨.done id, find hat.inv hid hguard, .ret (.ret fun id' heq => ?_)⟩
    exact congrArg OwnerStage.done (Except.ok.inj heq)
  · exact Restores.quiet (I := ownersInv ns name) quietInv_owners hat hanswer trivial
      (.ret (.ret fun _ => nofun))

omit [DecidableEq ι] in
theorem World.OwnersNamed.inv (h : w.OwnersNamed ns) : OwnersInv ns name w fun _ => .reading where
  injective n n' id hn hn' := by
    have hback := h.named n id hn
    rw [h.named n' id hn'] at hback
    exact (Option.some.inj hback).symm
  known n id hn := h.issued id (by rw [h.named n id hn]; simp)
  back n m id hn hm := by
    rw [h.named n id hn] at hm
    exact (Option.some.inj hm).symm
  nameKnown := h.issued
  stage _ := trivial
  distinct _ _ _ := nofun

omit [DecidableEq ι] in
theorem ends_ownerName {Q : World → Except Err String → Prop} {n : String}
    (h : w.value (nameLoc ns id) = some n) :
    Ends (env noFault) False Q w (ownerName ns id).run ↔ Q w (.ok n) := by
  rw [ownerName, ends_seq, ends_nsKVs]
  simp only [noFault_iff, false_imp_iff, and_true]
  rw [ends_seq, ends_wrap, ends_kvGet]
  simp only [h, reduceCtorEq, false_imp_iff, true_and, Option.some.injEq, forall_eq', ends_pure,
    mapError_ok, noFault_iff, and_true]
  exact ⟨fun hQ => hQ false (by simp), fun hQ _ _ => hQ⟩

/-- **In every run whose steps are undisturbed the ids agree.** -/
theorem owners_agree (F : Op → Prop) (ns : String) (name : ι → String) (w : World)
    (hw : w.OwnersNamed ns) (c : Config ι Op Ans World (Except Err String))
    (hrun : Run (env F) (.start w fun i => (ownerID ns (name i)).run) c)
    (hguard : Guarded (Undisturbed ns) c.trace) : OwnersAgree ns name c := by
  have hstart : OwnersInv ns name w fun _ => .reading := hw.inv
  obtain ⟨g, hsound⟩ := sound_of_run (sound_start (Γ := natsProtocol F False (Undisturbed ns)
    (ownersInv ns name)) hstart fun i => safe_ownerID i) hrun hguard
  have hinv : OwnersInv ns name c.state g := hsound.inv
  have hdone {i id} (hi : c.threads i = .ret (.ok id)) :
      c.state.value (idLoc ns (ownerKey (name i))) = some id ∧
        c.state.value (nameLoc ns id) = some (ownerKey (name i)) := by
    obtain ⟨s, -, hresult⟩ := hsound.result hi
    have hstage := hinv.stage i
    rwa [hresult id rfl] at hstage
  refine ⟨fun i j id id' hi hj => ⟨?_, fun heq => ?_⟩, fun i id hi => ?_⟩
  · rintro rfl
    exact Option.some.inj ((hdone hi).2.symm.trans (hdone hj).2)
  · have hsame := (hdone hi).1
    rw [heq, (hdone hj).1] at hsame
    exact (Option.some.inj hsame).symm
  · exact (ends_ownerName (hdone hi).2).2 rfl

/-! ### Two first uses -/

/-- Two uses of one name, the second of which is under its empty spelling. -/
def twoUses (second : Bool) : String := if second then "" else "AnyUser"

/-- The second use begins when the first one has returned. -/
theorem owners_agree_inTurn : ∃ c, Run (env noFault) (.start ({} : World)
        fun i => (ownerID "default" (twoUses i)).run) c ∧
      returnedOk (c.threads false) = true ∧ returnedOk (c.threads true) = true ∧
      OwnersAgree "default" twoUses c := by
  obtain ⟨c, hrun, hfirst, hsecond, hguard⟩ := exists_run_of_reaches noFault
    (.start ({} : World) fun i => (ownerID "default" (twoUses i)).run)
    (List.replicate 5 (false, .ok) ++ List.replicate 2 (true, .ok))
    (fun c => returnedOk (c.threads false) ∧ returnedOk (c.threads true) ∧
      Guarded (Undisturbed "default") c.trace) (by decide +kernel)
  exact ⟨c, hrun, hfirst, hsecond,
    owners_agree noFault "default" twoUses {} ⟨fun _ _ h => (by cases h), fun _ h => absurd rfl h⟩ c
    hrun hguard⟩

/-- **Two first uses of one name get different ids.** Both find that the name has no id. -/
theorem owners_race : ∃ c, Run (env noFault) (.start ({} : World)
        fun i => (ownerID "default" (twoUses i)).run) c ∧
      ∃ id id', c.threads false = .ret (.ok id) ∧ c.threads true = .ret (.ok id') ∧ id ≠ id' := by
  obtain ⟨c, hrun, hfirst, hsecond⟩ := exists_run_of_reaches noFault
    (.start ({} : World) fun i => (ownerID "default" (twoUses i)).run)
    (List.replicate 2 (false, .ok) ++ List.replicate 5 (true, .ok) ++ List.replicate 3 (false, .ok))
    (fun c => c.threads false = .ret (.ok "id1") ∧ c.threads true = .ret (.ok "id0"))
    (by decide +kernel)
  exact ⟨c, hrun, _, _, hfirst, hsecond, by decide⟩

end SharWorkflow
