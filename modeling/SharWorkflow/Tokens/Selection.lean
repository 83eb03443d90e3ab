import SharWorkflow.Engine.Conduct
import SharWorkflow.Gateways.Search
import SharWorkflow.Parser.Flows
import Mathlib.Data.List.Dedup

/-!
# The flows that a token takes

`traverse` sends a token along each flow whose conditions hold, the default flow left out, or along
the default flow if there is none. It asks for the type of the gateway nowhere.

* `Targets.held`: the flows whose conditions hold, without the default one. `Targets.chosen`: the
  flows that are taken.
* `tokens_of_traverse`: **in every run** a traversal that succeeds has sent one token along each
  flow that is taken, whatever the other threads do and whichever calls fail.
* `selects_iff`: the tokens are those that the type of the gateway asks for exactly when the
  conditions of its flows are such that they come out right.
-/

namespace SharWorkflow

open Concurrent Protocol Discipline List Function World

/-! ### The choice of flows -/

/-- The conditions of a flow hold. -/
def Target.holds (lib : Lib) (vars : Bytes) (t : Target) : Bool :=
  match conditionsHold lib vars t.conditions with
  | .ok b => b
  | .error _ => false

namespace Targets

variable (lib : Lib) (vars : Bytes) (outbound : Targets)

/-- The flows other than the default one. -/
def others : List Target :=
  (outbound.target.zipIdx.filter fun t => (t.2 : Int) ≠ outbound.defaultTarget).map (·.1)

/-- The flows other than the default one whose conditions hold, each of them once. -/
def held : List Target := (outbound.others.filter (·.holds lib vars)).dedup

/-- The flows that are taken. -/
def chosen : List Target :=
  if outbound.held lib vars = [] then outbound.default?.toList else outbound.held lib vars

end Targets

/-- The flows by their ids. -/
def flowTable (flows : List Target) (taken : GoMap String) : GoMap String :=
  flows.foldl (fun taken t => taken.insert t.id t.target) taken

section Choice

variable {lib : Lib} {vars : Bytes} {outbound : Targets} {targets : GoMap String}
  {flows : List Target}

theorem takenTargets_eq_ok {defaultTarget : Int} {ord : Nat} {taken taken' : GoMap String}
    (h : takenTargets lib vars defaultTarget ord flows taken = .ok taken') :
    taken' = flowTable ((((flows.zipIdx ord).filter fun t => (t.2 : Int) ≠ defaultTarget).map
      (·.1)).filter (·.holds lib vars)) taken := by
  induction flows generalizing ord taken with
  | nil =>
    cases h
    rfl
  | cons t rest ih =>
    rw [takenTargets] at h
    rw [zipIdx_cons]
    split at h
    · rename_i hdefault
      rw [filter_cons_of_neg (by simpa using hdefault)]
      exact ih h
    · rename_i hother
      rw [filter_cons_of_pos (by simpa using hother), map_cons]
      split at h
      · cases h
      · rename_i ok hok
        have hholds : t.holds lib vars = ok := by rw [Target.holds, hok]
        rw [ih h]
        cases ok with
        | true => rw [filter_cons_of_pos hholds]; rfl
        | false => rw [filter_cons_of_neg (by simp [hholds])]; rfl

/-- Flows that are determined by their ids are found under them. -/
theorem lookup_flowTable (hids : ∀ t ∈ flows, ∀ t' ∈ flows, t.id = t'.id → t = t') (k v : String) :
    (flowTable flows ∅).lookup k = some v ↔ ∃ t ∈ flows, t.id = k ∧ t.target = v := by
  induction flows using List.reverseRecOn with
  | nil => simp [flowTable]
  | append_singleton flows t ih =>
    have hids' : ∀ t ∈ flows, ∀ t' ∈ flows, t.id = t'.id → t = t' := fun t₁ h₁ t₂ h₂ =>
      hids t₁ (mem_append_left _ h₁) t₂ (mem_append_left _ h₂)
    have happend : flowTable (flows ++ [t]) ∅ = (flowTable flows ∅).insert t.id t.target := by
      rw [flowTable, foldl_append]
      rfl
    rw [happend]
    by_cases hk : k = t.id
    · subst hk
      rw [AList.lookup_insert, Option.some.injEq]
      constructor
      · exact fun htarget => ⟨t, by simp, rfl, htarget⟩
      · rintro ⟨t', ht', hid, rfl⟩
        rw [hids t (by simp) t' ht' hid.symm]
    · rw [AList.lookup_insert_ne hk, ih hids']
      constructor
      · rintro ⟨t', ht', hid, htarget⟩
        exact ⟨t', mem_append_left _ ht', hid, htarget⟩
      · rintro ⟨t', ht', rfl, htarget⟩
        rcases mem_append.1 ht' with ht' | ht'
        · exact ⟨t', ht', rfl, htarget⟩
        · exact absurd (congrArg Target.id (mem_singleton.1 ht')) hk

/-- The entries of the table are the flows, each of them once. -/
theorem entries_flowTable (flows : List Target)
    (hids : ∀ t ∈ flows, ∀ t' ∈ flows, t.id = t'.id → t = t') :
    ((flowTable flows ∅).entries.map (·.2)).Perm (flows.dedup.map (·.target)) := by
  have hperm : (flowTable flows ∅).entries.Perm
      (flows.dedup.map fun t => (⟨t.id, t.target⟩ : Sigma fun _ : String => String)) := by
    refine (perm_ext_iff_of_nodup (List.NodupKeys.nodup (flowTable flows ∅).nodupKeys) ?_).2 ?_
    · refine (nodup_dedup flows).map_on fun t ht t' ht' heq => ?_
      exact hids t (mem_dedup.1 ht) t' (mem_dedup.1 ht') (congrArg Sigma.fst heq)
    · rintro ⟨k, v⟩
      rw [← AList.mem_lookup_iff, Option.mem_def, lookup_flowTable hids]
      simp
  have hmap := hperm.map (·.2)
  rwa [map_map] at hmap

variable {t : Target}

theorem default?_mem (h : outbound.default? = some t) : t ∈ outbound.target := by
  unfold Targets.default? at h
  split at h
  · exact mem_of_getElem? h
  · cases h

theorem others_subset : outbound.others ⊆ outbound.target := by
  intro t ht
  obtain ⟨⟨t', ord⟩, hmem, rfl⟩ := mem_map.1 ht
  exact fst_mem_of_mem_zipIdx (mem_filter.1 hmem).1

/-- A flow is the default one or among the others. -/
theorem mem_others_or_default (ht : t ∈ outbound.target) :
    t ∈ outbound.others ∨ outbound.default? = some t := by
  obtain ⟨ord, hord⟩ := mem_iff_getElem?.1 ht
  by_cases hdefault : (ord : Int) = outbound.defaultTarget
  · refine .inr ?_
    rw [Targets.default?, ← hdefault, if_pos (Int.natCast_nonneg ord), Int.toNat_natCast, hord]
  · refine .inl (mem_map.2 ⟨(t, ord), mem_filter.2 ⟨?_, by simpa using hdefault⟩, rfl⟩)
    exact mk_mem_zipIdx_iff_getElem?.2 hord

theorem mem_held : t ∈ outbound.held lib vars ↔ t ∈ outbound.others ∧ t.holds lib vars = true := by
  rw [Targets.held, mem_dedup, mem_filter]

theorem nodup_held : (outbound.held lib vars).Nodup := nodup_dedup _

/-- **The choice of the code**: one entry for each flow that is taken. -/
theorem chosenTargets_eq_ok
    (hids : ∀ t ∈ outbound.target, ∀ t' ∈ outbound.target, t.id = t'.id → t = t')
    (h : chosenTargets lib vars outbound = some (.ok targets)) :
    (targets.entries.map (·.2)).Perm ((outbound.chosen lib vars).map (·.target)) := by
  unfold chosenTargets at h
  split at h
  · cases h
  rename_i taken htaken
  obtain rfl : taken = flowTable (outbound.others.filter (·.holds lib vars)) ∅ :=
    takenTargets_eq_ok htaken
  have hheld := entries_flowTable (outbound.others.filter (·.holds lib vars))
    fun t ht t' ht' => hids t (others_subset (mem_filter.1 ht).1) t'
      (others_subset (mem_filter.1 ht').1)
  generalize flowTable (outbound.others.filter (·.holds lib vars)) ∅ = taken at h hheld
  change (taken.entries.map (·.2)).Perm ((outbound.held lib vars).map (·.target)) at hheld
  unfold Targets.chosen
  by_cases hnone : outbound.held lib vars = []
  · obtain rfl : taken = ∅ := by
      rw [hnone, map_nil] at hheld
      exact AList.ext (map_eq_nil_iff.1 hheld.eq_nil)
    rw [if_pos hnone]
    split at h
    · obtain ⟨t, ht, htargets⟩ := Option.map_eq_some_iff.1 h
      cases htargets
      rw [ht]
      exact List.Perm.refl _
    · rename_i hdefault
      cases h
      have hminus : outbound.defaultTarget = -1 := by simpa using hdefault
      rw [Targets.default?, hminus, if_neg (by decide)]
      exact List.Perm.refl _
  · have hsome : ¬taken.entries.isEmpty = true := by
      intro hempty
      rw [isEmpty_iff.1 hempty, map_nil] at hheld
      exact hnone (map_eq_nil_iff.1 hheld.symm.eq_nil)
    rw [if_neg fun hand => hsome hand.1] at h
    rw [if_neg hnone]
    cases h
    exact hheld

theorem nodup_chosen : (outbound.chosen lib vars).Nodup := by
  unfold Targets.chosen
  split
  · cases outbound.default? <;> simp
  · exact nodup_held

theorem chosen_subset : outbound.chosen lib vars ⊆ outbound.target := by
  intro t ht
  unfold Targets.chosen at ht
  split at ht
  · exact default?_mem (Option.mem_toList.1 ht)
  · exact others_subset (mem_held.1 ht).1

end Choice

/-! ### The tokens of a run -/

section Run

variable {ι : Type} [DecidableEq ι]

/-- The tokens that a thread has sent, the newest one first. -/
def tokensOf (i : ι) (t : List (WEvent ι)) : List WorkflowState :=
  sent .traversalExecute (t.filter fun e => e.thread = i)

theorem tokensOf_cons (i : ι) (e : WEvent ι) (t : List (WEvent ι)) : tokensOf i (e :: t) =
      if e.thread = i then (sentState .traversalExecute e.op e.answer).toList ++ tokensOf i t
      else tokensOf i t := by
  unfold tokensOf sent
  by_cases h : e.thread = i
  · rw [filter_cons_of_pos (by simpa using h), if_pos h, filterMap_cons]
    cases sentState .traversalExecute e.op e.answer <;> rfl
  · rw [filter_cons_of_neg (by simpa using h), if_neg h]

/-- The state of the conduct is the tokens that have been sent. -/
@[simps]
def tokenConduct : Conduct (List WorkflowState) where
  published l m := (sentState .traversalExecute (.publish m) (.ok ())).toList ++ l

/-- The tokens of each thread are kept in `g`. -/
def TokensKept (t : List (WEvent ι)) (g : ι → List WorkflowState) : Prop := ∀ i, g i = tokensOf i t

variable {g : ι → List WorkflowState}

theorem TokensKept.step {t : List (WEvent ι)} (h : TokensKept t g) (e : WEvent ι) :
    TokensKept (e :: t) (Function.update g e.thread
      ((sentState .traversalExecute e.op e.answer).toList ++ g e.thread)) := by
  intro i
  rw [tokensOf_cons]
  by_cases hi : e.thread = i
  · subst hi
    rw [update_self, if_pos rfl, h]
  · rw [update_of_ne (Ne.symm hi), if_neg hi, h]

/-- A step that sends no token. -/
theorem TokensKept.skip {t : List (WEvent ι)} (h : TokensKept t g) {e : WEvent ι}
    (hsent : ∀ m, e.op = .publish m → isFailure e.op e.answer = true) :
    TokensKept (e :: t) g := by
  have hstep := h.step e
  rwa [sentState_eq_none hsent, Option.toList_none, nil_append, update_eq_self]
    at hstep

theorem enforced_tokenConduct {F : Op → Prop} (i : ι) :
    tokenConduct.Enforced F (fun _ _ => True) (fun _ => TokensKept) i where
  holds _ _ := trivial
  absent _ _ := trivial
  defines _ _ := trivial
  allows _ _ := trivial
  faulty _ _ _ _ := trivial
  idle hinv _ hidle _ := hinv.skip fun m hm => by
    dsimp only at hm
    subst hm
    simp [Conduct.isIdle] at hidle
  fail hinv _ hfailure _ := by
    rw [tokenConduct_failed, update_eq_self]
    exact hinv.skip fun _ _ => hfailure
  read hinv _ _ := by
    rw [tokenConduct_noted, update_eq_self]
    exact hinv.skip fun m hm => by cases hm
  write {s t g loc' v o r} hinv _ hwrite _ := by
    rw [tokenConduct_wrote, update_eq_self]
    refine hinv.skip fun m hm => ?_
    cases hwrite <;> cases hm
  delete hinv _ _ := by
    rw [tokenConduct_deleted, update_eq_self]
    exact hinv.skip fun m hm => by cases hm
  publish {s t g m} hinv _ _ := hinv.step ⟨i, s, .publish m, .ok ()⟩
  cache hinv _ _ _ := hinv.skip fun m hm => by cases hm

end Run

section Traverse

open Conduct

variable {lib : Lib} {ns : String} {trackingID : TrackingID} {el : GoMap Element}
  {state : WorkflowState} {targets : GoMap String}

/-- One branch sends one token. -/
theorem leads_sendBranch {reciprocalId iid branchID elID : String} {l : List WorkflowState}
    (hindexed : Indexed el) :
    tokenConduct.Leads (fun l' _ => l'.map (·.elementId) = elID :: l.map (·.elementId))
      (fun _ => True) l (sendBranch ns trackingID el state reciprocalId iid branchID elID) := by
  simp [sendBranch, stateMsg, sentState, branchState_elementId]
  intro _ _ _ target htarget _ _ _ _ _
  have hid : target.id = elID := hindexed _ _ htarget
  exact ⟨fun _ => hid, fun _ => hid⟩

theorem map_lookup_keys (targets : GoMap String) :
    (targets.keys.map fun k => (targets.lookup k).getD "") = targets.entries.map (·.2) := by
  rw [AList.keys, List.keys, map_map]
  refine map_congr_left fun e he => ?_
  have hlookup : targets.lookup e.1 = some e.2 := AList.mem_lookup_iff.2 he
  rw [comp_apply, hlookup, Option.getD_some]

/-- One token for each entry of the table of targets, in whichever order. -/
def TargetsSent (lib : Lib) (vars : Bytes) (outbound : Targets) (l : List WorkflowState) : Prop :=
  ∃ targets, chosenTargets lib vars outbound = some (.ok targets) ∧
    (l.map (·.elementId)).Perm (targets.entries.map (·.2))

/-- **A traversal that succeeds** has sent one token for each entry of the table of targets. -/
theorem leads_tokens {outbound : Targets} (hindexed : Indexed el) :
    tokenConduct.Leads (fun l _ => TargetsSent lib state.vars outbound l) (fun _ => True) []
      (traverse lib ns trackingID (some outbound) el state) := by
  refine leads_traverse nofun (fun _ => trivial) ?_ trivial fun _ => trivial
  intro out targets elem reciprocalId iid st branches hout hchosen _ _ _ _ hperm
  cases hout
  rw [opened_eq rfl]
  -- the tokens for the branches that have been sent, the newest one first
  let sentTo : List String → List String := fun done =>
    (done.map fun k => (targets.lookup k).getD "").reverse
  refine Keeps.forM
    (fun rest l => ∃ done, branches = done ++ rest ∧ l.map (·.elementId) = sentTo done)
    branches ⟨[], rfl, rfl⟩ ?_ ?_
  · rintro branch rest l ⟨done, rfl, hl⟩
    refine (leads_sendBranch hindexed).mono fun l' r hr => ?_
    cases r with
    | error e => trivial
    | ok _ =>
      refine ⟨done ++ [branch], by simp, ?_⟩
      have hl' : l'.map (·.elementId) = _ := hr
      rw [hl', hl]
      simp [sentTo]
  · rintro l ⟨done, hdone, hl⟩
    refine ⟨targets, hchosen, ?_⟩
    rw [append_nil] at hdone
    rw [hl, ← hdone, ← map_lookup_keys]
    exact (reverse_perm _).trans (hperm.map _)

/-- **In every run** a traversal that succeeds has sent one token along each flow that is taken.
Other threads may do anything, and any call may fail. -/
theorem tokens_of_traverse {ι : Type} [DecidableEq ι] {outbound : Targets} (hindexed : Indexed el)
    (hids : ∀ t ∈ outbound.target, ∀ t' ∈ outbound.target, t.id = t'.id → t = t') {F : Op → Prop}
    {w : World} {threads : ι → P (Except Err WorkflowState)} {i : ι}
    (hthread : threads i = (traverse lib ns trackingID (some outbound) el state).run)
    {c : Config ι Op Ans World (Except Err WorkflowState)} (hrun : Run (env F) (.start w threads) c)
    {st : WorkflowState} (hret : c.threads i = .ret (.ok st)) :
    ((tokensOf i c.trace).map (·.elementId)).Perm
      ((outbound.chosen lib state.vars).map (·.target)) := by
  -- nothing is asked of the other threads
  let Q : ι → List WorkflowState → Except Err WorkflowState → Prop := fun j l r =>
    j = i → Conduct.Outcome (fun l _ => TargetsSent lib state.vars outbound l) (fun _ => True) l r
  have hkeeps : ∀ j, tokenConduct.Keeps (Q j) [] (threads j) := by
    intro j
    by_cases hj : j = i
    · subst hj
      rw [hthread]
      exact (leads_tokens hindexed).mono fun l r hr _ => hr
    · refine (keeps_of_free (D := tokenConduct.discipline) (fun l o => ?_) [] (threads j)).mono
        fun l r _ heq => absurd heq hj
      cases o <;> trivial
  have hstart : (natsProtocol F True (fun _ _ => True) fun _ => TokensKept).inv w
      ([] : List (WEvent ι)) fun _ => [] := fun _ => rfl
  obtain ⟨g, hsound⟩ := sound_of_run (sound_start hstart fun j =>
    (hkeeps j).safe (enforced_tokenConduct j).governs) hrun (guarded_true _)
  obtain ⟨_, -, hQ⟩ := hsound.result hret
  obtain ⟨targets, hchosen, hperm⟩ := hQ rfl
  have hkept : g i = tokensOf i c.trace := hsound.inv i
  rw [hkept] at hperm
  exact hperm.trans (chosenTargets_eq_ok hids hchosen)

end Traverse

/-! ### What a gateway asks for -/

/-- The tokens that an element should send: a split with an exclusive choice one, along a flow whose
conditions hold, or along the default flow if there is none; an inclusive gateway one along each
flow whose conditions hold, and at least one; a parallel gateway one along each flow; any element at
least one. -/
structure Selects (lib : Lib) (vars : Bytes) (outbound : Targets) (elem : Element)
    (tokens : List WorkflowState) : Prop where
  exclusive : elem.kind = some (.exclusive, .divergent) → ∃ t ∈ outbound.target,
    tokens.map (·.elementId) = [t.target] ∧ (t.holds lib vars = true ∨
      outbound.default? = some t ∧ ∀ t' ∈ outbound.target, t'.holds lib vars = false)
  inclusive : ∀ direction, elem.kind = some (.inclusive, direction) →
    (tokens.map (·.elementId)).Perm
      ((outbound.target.dedup.filter (·.holds lib vars)).map (·.target)) ∧ tokens ≠ []
  parallel : ∀ direction, elem.kind = some (.parallel, direction) →
    (tokens.map (·.elementId)).Perm (outbound.target.dedup.map (·.target))
  any : tokens ≠ []

/-- The conditions of the flows are such that the right tokens are sent, although the type of the
gateway is not asked for. -/
structure Selectable (lib : Lib) (vars : Bytes) (outbound : Targets) (elem : Element) : Prop where
  exclusive : elem.kind = some (.exclusive, .divergent) → (outbound.held lib vars).length = 1 ∨
    outbound.held lib vars = [] ∧ ∃ t, outbound.default? = some t
  inclusive : ∀ direction, elem.kind = some (.inclusive, direction) →
    (outbound.held lib vars ≠ [] ∧ ∀ t, outbound.default? = some t → t.holds lib vars = true →
      t ∈ outbound.held lib vars) ∨
    (outbound.held lib vars = [] ∧ ∃ t, outbound.default? = some t ∧ t.holds lib vars = true)
  parallel : ∀ direction, elem.kind = some (.parallel, direction) →
    (∀ t ∈ outbound.target, t ∈ outbound.held lib vars) ∨
    (outbound.held lib vars = [] ∧ ∃ t, outbound.default? = some t ∧ ∀ t' ∈ outbound.target, t' = t)
  any : outbound.held lib vars ≠ [] ∨ ∃ t, outbound.default? = some t

section Selection

variable {lib : Lib} {vars : Bytes} {outbound : Targets}

theorem chosen_of_held (h : outbound.held lib vars ≠ []) :
    outbound.chosen lib vars = outbound.held lib vars := if_neg h

theorem chosen_of_default (h : outbound.held lib vars = []) {t : Target}
    (ht : outbound.default? = some t) : outbound.chosen lib vars = [t] := by
  rw [Targets.chosen, if_pos h, ht]
  rfl

/-- A flow whose conditions hold is held, or is the default flow. -/
theorem mem_held_or_default {t : Target} (ht : t ∈ outbound.target)
    (hholds : t.holds lib vars = true) : t ∈ outbound.held lib vars ∨ outbound.default? = some t :=
  (mem_others_or_default ht).imp_left fun hothers => mem_held.2 ⟨hothers, hholds⟩

theorem chosen_ne_nil_iff : outbound.chosen lib vars ≠ [] ↔
      outbound.held lib vars ≠ [] ∨ ∃ t, outbound.default? = some t := by
  by_cases hnone : outbound.held lib vars = []
  · rw [Targets.chosen, if_pos hnone]
    cases outbound.default? <;> simp [hnone]
  · simp [chosen_of_held hnone, hnone]

variable {sent : List String}

/-- One token is sent, and along the right flow, exactly when one flow is held, or none and there is
a default flow. -/
theorem exclusive_iff (hsent : sent.Perm ((outbound.chosen lib vars).map (·.target))) :
    (∃ t ∈ outbound.target, sent = [t.target] ∧ (t.holds lib vars = true ∨
      outbound.default? = some t ∧ ∀ t' ∈ outbound.target, t'.holds lib vars = false)) ↔
      (outbound.held lib vars).length = 1 ∨
        outbound.held lib vars = [] ∧ ∃ t, outbound.default? = some t := by
  constructor
  · rintro ⟨t, -, rfl, -⟩
    have hlength : (outbound.chosen lib vars).length = 1 := by simpa using hsent.length_eq.symm
    by_cases hnone : outbound.held lib vars = []
    · refine .inr ⟨hnone, ?_⟩
      refine (chosen_ne_nil_iff.1 ?_).resolve_left fun hne => hne hnone
      exact ne_nil_of_length_pos (by omega)
    · rw [chosen_of_held hnone] at hlength
      exact .inl hlength
  · rintro (hone | ⟨hnone, t, ht⟩)
    · obtain ⟨t, ht⟩ := length_eq_one_iff.1 hone
      have hmem : t ∈ outbound.held lib vars := by
        rw [ht]
        exact mem_singleton_self t
      obtain ⟨hothers, hholds⟩ := mem_held.1 hmem
      refine ⟨t, others_subset hothers, perm_singleton.1 ?_, .inl hholds⟩
      rwa [chosen_of_held (ne_nil_of_mem hmem), ht] at hsent
    · refine ⟨t, default?_mem ht, perm_singleton.1 ?_, ?_⟩
      · rwa [chosen_of_default hnone ht] at hsent
      · by_cases hholds : t.holds lib vars = true
        · exact .inl hholds
        · refine .inr ⟨ht, fun t' ht' => ?_⟩
          by_contra hnot
          rcases mem_held_or_default ht' (by simpa using hnot) with hheld | hdefault
          · simp [hnone] at hheld
          · rw [ht, Option.some.injEq] at hdefault
            exact hnot (by rw [← hdefault]; simpa using hholds)

/-- One token is sent along each flow whose conditions hold exactly when the default flow is not
left out. -/
theorem inclusive_iff (hsent : sent.Perm ((outbound.chosen lib vars).map (·.target))) :
    (sent.Perm ((outbound.target.dedup.filter (·.holds lib vars)).map (·.target)) ∧ sent ≠ []) ↔
      (outbound.held lib vars ≠ [] ∧ ∀ t, outbound.default? = some t → t.holds lib vars = true →
        t ∈ outbound.held lib vars) ∨ (outbound.held lib vars = [] ∧
        ∃ t, outbound.default? = some t ∧ t.holds lib vars = true) := by
  have hmem : ∀ t, t ∈ outbound.target.dedup.filter (·.holds lib vars) ↔
      t ∈ outbound.target ∧ t.holds lib vars = true := fun t => by
    rw [mem_filter, mem_dedup]
  have hnodup : (outbound.target.dedup.filter (·.holds lib vars)).Nodup :=
    (nodup_dedup _).filter _
  generalize outbound.target.dedup.filter (·.holds lib vars) = all at hmem hnodup
  constructor
  · rintro ⟨hall, hne⟩
    have hlength : (outbound.chosen lib vars).length = all.length := by
      simpa using hsent.length_eq.symm.trans hall.length_eq
    by_cases hnone : outbound.held lib vars = []
    · refine .inr ⟨hnone, ?_⟩
      have hallne : all ≠ [] := by
        rintro rfl
        exact hne (by simpa using hall)
      obtain ⟨t, ht⟩ := exists_mem_of_ne_nil _ hallne
      obtain ⟨htarget, hholds⟩ := (hmem t).1 ht
      rcases mem_held_or_default htarget hholds with hheld | hdefault
      · simp [hnone] at hheld
      · exact ⟨t, hdefault, hholds⟩
    · refine .inl ⟨hnone, fun t ht hholds => ?_⟩
      -- one more flow would hold than is taken
      by_contra hnot
      have hsub : t :: outbound.held lib vars ⊆ all := by
        refine cons_subset.2 ⟨(hmem t).2 ⟨default?_mem ht, hholds⟩, fun t' ht' => ?_⟩
        obtain ⟨hothers, hholds'⟩ := mem_held.1 ht'
        exact (hmem t').2 ⟨others_subset hothers, hholds'⟩
      have hle := ((nodup_cons.2 ⟨hnot, nodup_held⟩).subperm hsub).length_le
      rw [chosen_of_held hnone] at hlength
      simp only [length_cons] at hle
      omega
  · have hsentne : outbound.chosen lib vars ≠ [] → sent ≠ [] := by
      rintro hne rfl
      exact hne (map_eq_nil_iff.1 hsent.symm.eq_nil)
    rintro (⟨hheld, hdefault⟩ | ⟨hnone, t, ht, hholds⟩)
    · have hperm : (outbound.held lib vars).Perm all := by
        refine (perm_ext_iff_of_nodup nodup_held hnodup).2 fun t => ?_
        rw [mem_held, hmem]
        constructor
        · exact fun ⟨hothers, hholds⟩ => ⟨others_subset hothers, hholds⟩
        · rintro ⟨htarget, hholds⟩
          rcases mem_held_or_default htarget hholds with hmem' | hdef
          · exact mem_held.1 hmem'
          · exact mem_held.1 (hdefault t hdef hholds)
      rw [chosen_of_held hheld] at hsent hsentne
      exact ⟨hsent.trans (hperm.map _), hsentne hheld⟩
    · have hperm : [t].Perm all := by
        refine (perm_ext_iff_of_nodup (nodup_singleton t) hnodup).2 fun t' => ?_
        rw [mem_singleton, hmem]
        constructor
        · rintro rfl
          exact ⟨default?_mem ht, hholds⟩
        · rintro ⟨htarget, hholds'⟩
          rcases mem_held_or_default htarget hholds' with hheld | hdef
          · simp [hnone] at hheld
          · exact (Option.mem_unique ht hdef).symm
      rw [chosen_of_default hnone ht] at hsent hsentne
      exact ⟨hsent.trans (hperm.map _), hsentne (cons_ne_nil _ _)⟩

/-- One token is sent along each flow exactly when all flows are held, or the default flow is the
only one. -/
theorem parallel_iff (hne : outbound.target ≠ [])
    (hsent : sent.Perm ((outbound.chosen lib vars).map (·.target))) :
    sent.Perm (outbound.target.dedup.map (·.target)) ↔
      (∀ t ∈ outbound.target, t ∈ outbound.held lib vars) ∨ (outbound.held lib vars = [] ∧
        ∃ t, outbound.default? = some t ∧ ∀ t' ∈ outbound.target, t' = t) := by
  obtain ⟨t₀, ht₀⟩ := exists_mem_of_ne_nil _ hne
  have hsub : outbound.chosen lib vars ⊆ outbound.target.dedup := fun t ht =>
    mem_dedup.2 (chosen_subset ht)
  constructor
  · intro hall
    have hlength : (outbound.chosen lib vars).length = outbound.target.dedup.length := by
      simpa using hsent.length_eq.symm.trans hall.length_eq
    have hperm := (nodup_chosen.subperm hsub).perm_of_length_le hlength.ge
    have htaken : ∀ t ∈ outbound.target, t ∈ outbound.chosen lib vars := fun t ht =>
      hperm.mem_iff.2 (mem_dedup.2 ht)
    by_cases hnone : outbound.held lib vars = []
    · refine .inr ⟨hnone, ?_⟩
      obtain ⟨t, ht⟩ := (chosen_ne_nil_iff.1 (ne_nil_of_mem (htaken t₀ ht₀))).resolve_left
        fun h => h hnone
      rw [chosen_of_default hnone ht] at htaken
      exact ⟨t, ht, fun t' ht' => mem_singleton.1 (htaken t' ht')⟩
    · rw [chosen_of_held hnone] at htaken
      exact .inl htaken
  · intro h
    have htaken : ∀ t ∈ outbound.target, t ∈ outbound.chosen lib vars := by
      rcases h with hheld | ⟨hnone, t, ht, honly⟩
      · rw [chosen_of_held (ne_nil_of_mem (hheld t₀ ht₀))]
        exact hheld
      · rw [chosen_of_default hnone ht]
        exact fun t' ht' => mem_singleton.2 (honly t' ht')
    refine hsent.trans (List.Perm.map _ ?_)
    refine (perm_ext_iff_of_nodup nodup_chosen (nodup_dedup _)).2 fun t => ?_
    rw [mem_dedup]
    exact ⟨fun ht => chosen_subset ht, htaken t⟩

end Selection

/-- **The tokens of a traversal that succeeds are those that the element asks for** exactly when the
conditions of its flows are such that they come out right. The flows are as the parser has produced
them, other threads may do anything, and any call may fail. -/
theorem selects_iff {ι : Type} [DecidableEq ι] (lib : Lib) (ns : String) (trackingID : TrackingID)
    (doc : XmlDocument) (node : XmlNode) (outbound : Targets)
    (hparse : parseFlowInOut doc node = .done (some outbound)) (el : GoMap Element)
    (hindexed : Indexed el) (state : WorkflowState) (elem : Element)
    (_ : el.lookup state.elementId = some elem) (hout : elem.outbound = some outbound)
    (F : Op → Prop) (w : World) (threads : ι → P (Except Err WorkflowState)) (i : ι)
    (hthread : threads i = (traverse lib ns trackingID elem.outbound el state).run)
    (c : Config ι Op Ans World (Except Err WorkflowState)) (hrun : Run (env F) (.start w threads) c)
    (st : WorkflowState) (hret : c.threads i = .ret (.ok st)) :
    Selects lib state.vars outbound elem (tokensOf i c.trace) ↔
      Selectable lib state.vars outbound elem := by
  rw [hout] at hthread
  have hids : ∀ t ∈ outbound.target, ∀ t' ∈ outbound.target, t.id = t'.id → t = t' :=
    fun t ht t' ht' => flow_eq_of_id_eq hparse ht ht'
  have hsent := tokens_of_traverse hindexed hids hthread hrun hret
  have hne := (parseFlowInOut_eq_done hparse).1
  have hempty : tokensOf i c.trace ≠ [] ↔ (tokensOf i c.trace).map (·.elementId) ≠ [] := by
    rw [Ne, Ne, List.map_eq_nil_iff]
  have hany : tokensOf i c.trace ≠ [] ↔
      outbound.held lib state.vars ≠ [] ∨ ∃ t, outbound.default? = some t := by
    rw [← chosen_ne_nil_iff, hempty, Ne, Ne, not_iff_not]
    constructor
    · intro hnil
      rw [hnil] at hsent
      exact List.map_eq_nil_iff.1 hsent.symm.eq_nil
    · intro hnil
      rw [hnil] at hsent
      exact hsent.eq_nil
  constructor
  · intro h
    refine ⟨fun hkind => (exclusive_iff hsent).1 (h.exclusive hkind), fun direction hkind => ?_,
      fun direction hkind => (parallel_iff hne hsent).1 (h.parallel direction hkind), hany.1 h.any⟩
    obtain ⟨hperm, hsome⟩ := h.inclusive direction hkind
    exact (inclusive_iff hsent).1 ⟨hperm, hempty.1 hsome⟩
  · intro h
    refine ⟨fun hkind => (exclusive_iff hsent).2 (h.exclusive hkind), fun direction hkind => ?_,
      fun direction hkind => (parallel_iff hne hsent).2 (h.parallel direction hkind), hany.2 h.any⟩
    obtain ⟨hperm, hsome⟩ := (inclusive_iff hsent).2 (h.inclusive direction hkind)
    exact ⟨hperm, hempty.2 hsome⟩

/-! ### A choice between two tasks -/

/-- A gateway with two flows without conditions. -/
def choiceNode (default_ : String) : XmlNode where
  data := "exclusiveGateway"
  id := some "choice"
  default_ := default_
  outgoing := ["toPack", "toShip"]

/-- The definition of the gateway, its flows and two tasks. -/
def choiceDocument (default_ : String) : XmlDocument :=
  [choiceNode default_, { data := "sequenceFlow", id := some "toPack", targetRef := some "pack" },
    { data := "sequenceFlow", id := some "toShip", targetRef := some "ship" },
    { data := "serviceTask", id := some "pack" }, { data := "serviceTask", id := some "ship" }]

/-- The flows as they are parsed. -/
def choiceFlows (defaultTarget : Int) : Targets where
  target := [{ id := "toPack", target := "pack" }, { id := "toShip", target := "ship" }]
  defaultTarget := defaultTarget

def choiceElement (defaultTarget : Int) : Element where
  id := "choice"
  type := .gateway
  gateway := some { type := .exclusive, direction := .divergent }
  outbound := some (choiceFlows defaultTarget)

def choiceProcess (defaultTarget : Int) : Process where
  id := "process"
  elements := [choiceElement defaultTarget, { id := "pack", type := .serviceTask },
    { id := "ship", type := .serviceTask }]

/-- The token at the gateway. -/
def choiceState : WorkflowState where
  workflowId := "workflow"
  executionId := "execution"
  processId := "process"
  processInstanceId := "instance"
  elementId := "choice"
  elementType := .gateway
  id := ["instance", "activity"]

def choiceWorld (defaultTarget : Int) : World :=
  ({} : World).put ⟨"default", .wf, "workflow"⟩
    { name := "choice", process := AList.singleton "process" (choiceProcess defaultTarget) }

/-- The traversal. -/
def choiceRun (defaultTarget : Int) (_ : Unit) : P (Except Err WorkflowState) :=
  (traverse (constLib ∅) "default" ["instance"] (choiceElement defaultTarget).outbound
    (processTable (choiceProcess defaultTarget)) choiceState).run

/-- A schedule of the traversal that ends with a result, having sent the given tokens. -/
theorem exists_choiceRun (defaultTarget : Int) (n : Nat) (ids : List String)
    (h : (Config.start (choiceWorld defaultTarget) (choiceRun defaultTarget)).reaches
      (World.pick noFault) (List.replicate n ((), .ok)) (fun c =>
        (∃ st, c.threads () = .ret (.ok st)) ∧
          (tokensOf () c.trace).map (·.elementId) = ids) = true) :
    ∃ c st, Run (env noFault)
      (.start (choiceWorld defaultTarget) (choiceRun defaultTarget)) c ∧
      c.threads () = .ret (.ok st) ∧ (tokensOf () c.trace).map (·.elementId) = ids := by
  obtain ⟨c, hrun, ⟨st, hret⟩, hids⟩ := exists_run_of_reaches noFault _ _ _ h
  exact ⟨c, st, hrun, hret, hids⟩

/-- With a default flow one token is sent. -/
theorem selects_iff_default :
    ∃ c st, Run (env noFault) (.start (choiceWorld 1) (choiceRun 1)) c ∧
      c.threads () = .ret (.ok st) ∧
      (Selects (constLib ∅) choiceState.vars (choiceFlows 1) (choiceElement 1)
        (tokensOf () c.trace) ↔
        Selectable (constLib ∅) choiceState.vars (choiceFlows 1) (choiceElement 1)) := by
  obtain ⟨c, st, hrun, hret, -⟩ := exists_choiceRun 1 9 ["pack"] (by decide +kernel)
  refine ⟨c, st, hrun, hret, ?_⟩
  exact selects_iff (constLib ∅) "default" ["instance"] (choiceDocument "toShip")
    (choiceNode "toShip") (choiceFlows 1) rfl (processTable (choiceProcess 1))
    (indexed_processTable _) choiceState (choiceElement 1) rfl rfl noFault (choiceWorld 1)
    (choiceRun 1) () rfl c hrun st hret

/-- **An exclusive gateway that sends two tokens**: without a default flow both flows are taken. -/
theorem choice_sends_two_tokens :
    parseFlowInOut (choiceDocument "") (choiceNode "") = .done (some (choiceFlows (-1))) ∧
      (choiceElement (-1)).kind = some (.exclusive, .divergent) ∧
      ∃ c st, Run (env noFault) (.start (choiceWorld (-1)) (choiceRun (-1))) c ∧
        c.threads () = .ret (.ok st) ∧ (tokensOf () c.trace).map (·.elementId) = ["pack", "ship"] ∧
        ¬Selects (constLib ∅) choiceState.vars (choiceFlows (-1)) (choiceElement (-1))
          (tokensOf () c.trace) := by
  obtain ⟨c, st, hrun, hret, hids⟩ :=
    exists_choiceRun (-1) 16 ["pack", "ship"] (by decide +kernel)
  refine ⟨rfl, rfl, c, st, hrun, hret, hids, fun h => ?_⟩
  obtain ⟨t, -, hone, -⟩ := h.exclusive rfl
  rw [hids] at hone
  simp at hone

end SharWorkflow
