import SharWorkflow.Engine.Boundary
import SharWorkflow.Engine.Messages
import SharWorkflow.Engine.Registry
import SharWorkflow.Parser.Validation

/-!
# Keys that are put together

Some keys of the store are names with a separator between them: the key of an exchange is made of
the name of a message and a correlation key, that of a fatal error of the name of a workflow and
four ids, and that of a client task of the names of a workflow and a message. None of the separators
is forbidden in the names, so two different pairs of names may share a key.

* `append_cons_eq_append_cons_iff`: in how many ways a list can be cut at a separator.
* `KeysInjective`: the keys over given sets of names tell apart what they are made of.
* `keysInjective_iff`: **they do, if and only if** no name goes on after another one and a
  separator, where the other part of the key can make up for it.
-/

namespace SharWorkflow

open List

/-! ### Cutting at a separator -/

/-- Two ways to cut a list at a separator are the same, or the first part of one of them goes on
after the first part of the other. -/
theorem append_cons_eq_append_cons_iff {α : Type*} {sep : α} {a b a' b' : List α} :
    a ++ sep :: b = a' ++ sep :: b' ↔
      (a = a' ∧ b = b') ∨ (∃ x, a' = a ++ sep :: x ∧ b = x ++ sep :: b') ∨
        ∃ x, a = a' ++ sep :: x ∧ b' = x ++ sep :: b := by
  constructor
  · intro h
    rcases append_eq_append_iff.1 h with ⟨t, ha, ht⟩ | ⟨t, ha, ht⟩
    · cases t with
      | nil =>
        rw [nil_append, List.cons.injEq] at ht
        exact .inl ⟨by rw [ha, append_nil], ht.2⟩
      | cons c x =>
        rw [cons_append, List.cons.injEq] at ht
        exact .inr (.inl ⟨x, by rw [ha, ht.1], ht.2⟩)
    · cases t with
      | nil =>
        rw [nil_append, List.cons.injEq] at ht
        exact .inl ⟨by rw [ha, append_nil], ht.2.symm⟩
      | cons c x =>
        rw [cons_append, List.cons.injEq] at ht
        exact .inr (.inr ⟨x, by rw [ha, ht.1], ht.2⟩)
  · rintro (⟨rfl, rfl⟩ | ⟨x, rfl, rfl⟩ | ⟨x, rfl, rfl⟩) <;> simp

/-- A part without the separator ends where the separator is. -/
theorem eq_of_append_cons_eq {α : Type*} {sep : α} {a b a' b' : List α} (ha : sep ∉ a)
    (ha' : sep ∉ a') (h : a ++ sep :: b = a' ++ sep :: b') : a = a' ∧ b = b' := by
  rcases append_cons_eq_append_cons_iff.1 h with h | ⟨x, hx, -⟩ | ⟨x, hx, -⟩
  · exact h
  · exact absurd (by rw [hx]; simp) ha'
  · exact absurd (by rw [hx]; simp) ha

/-- Texts, as the keys have them. -/
theorem join_eq_join_iff {sep : String} {c : Char} (hsep : sep.toList = [c]) {a b a' b' : String} :
    a ++ sep ++ b = a' ++ sep ++ b' ↔
      (a = a' ∧ b = b') ∨ (∃ x, a' = a ++ sep ++ x ∧ b = x ++ sep ++ b') ∨
        ∃ x, a = a' ++ sep ++ x ∧ b' = x ++ sep ++ b := by
  have hexists : ∀ a b a' b' : String,
      (∃ x : List Char, a'.toList = a.toList ++ c :: x ∧ b.toList = x ++ c :: b'.toList) ↔
        ∃ x : String, a' = a ++ sep ++ x ∧ b = x ++ sep ++ b' := by
    intro a b a' b'
    simp only [← String.toList_inj, String.toList_append, hsep, append_assoc,
      singleton_append]
    constructor
    · rintro ⟨x, hx⟩
      exact ⟨String.ofList x, by rwa [String.toList_ofList]⟩
    · rintro ⟨x, hx⟩
      exact ⟨x.toList, hx⟩
  rw [← hexists, ← hexists, ← String.toList_inj, ← String.toList_inj, ← String.toList_inj]
  simp only [String.toList_append, hsep, append_assoc, singleton_append]
  exact append_cons_eq_append_cons_iff

/-! ### The keys -/

/-- The key of a client task, as in `ensureMessageBucket`. -/
abbrev clientTaskKey (workflowName messageName : String) : String :=
  workflowName ++ "_" ++ messageName

/-- The ids of a state are generated. They have no dots; the id of an element is taken from the
definition and may have some. -/
structure WorkflowState.Generated (state : WorkflowState) : Prop where
  workflowId : '.' ∉ state.workflowId.toList
  executionId : '.' ∉ state.executionId.toList
  processInstanceId : '.' ∉ state.processInstanceId.toList

/-- What the key of a fatal error is made of. -/
def WorkflowState.keyParts (state : WorkflowState) : List String :=
  [state.workflowName, state.workflowId, state.executionId, state.processInstanceId,
    state.elementId]

/-- The keys over the workflow names `W` and the message names `M` tell apart what they are made
of. -/
structure KeysInjective (W M : Set String) : Prop where
  message : ∀ m ∈ M, ∀ m' ∈ M, ∀ correlationKey correlationKey',
    messageKeyFrom [m, correlationKey] = messageKeyFrom [m', correlationKey'] →
      m = m' ∧ correlationKey = correlationKey'
  fatalError : ∀ state state' : WorkflowState, state.workflowName ∈ W → state'.workflowName ∈ W →
    state.Generated → state'.Generated → fatalErrorKey state = fatalErrorKey state' →
      state.keyParts = state'.keyParts
  clientTask : ∀ wf ∈ W, ∀ wf' ∈ W, ∀ m ∈ M, ∀ m' ∈ M,
    clientTaskKey wf m = clientTaskKey wf' m' → wf = wf' ∧ m = m'

/-- No name goes on after another one and the separator of a key. In the key of a client task the
name of the message would have to start with what the name of the workflow goes on with. -/
structure Separated (W M : Set String) : Prop where
  message : ∀ m ∈ M, ∀ m' ∈ M, ∀ x, m' ≠ m ++ "-" ++ x
  fatalError : ∀ wf ∈ W, ∀ wf' ∈ W, ∀ x, wf' ≠ wf ++ "." ++ x
  clientTask : ∀ wf ∈ W, ∀ wf' ∈ W, ∀ m ∈ M, ∀ m' ∈ M, ∀ x,
    wf' = wf ++ "_" ++ x → m ≠ x ++ "_" ++ m'

/-! ### Messages and client tasks -/

theorem ne_append_sep {sep : String} (hsep : sep ≠ "") (a x : String) : a ≠ a ++ sep ++ x := by
  intro h
  have hlength := congrArg String.length h
  rw [String.length_append, String.length_append] at hlength
  have hpos : sep.length ≠ 0 := fun h => hsep (String.length_eq_zero_iff.1 h)
  omega

theorem message_injective_iff {M : Set String} :
    (∀ m ∈ M, ∀ m' ∈ M, ∀ correlationKey correlationKey',
      messageKeyFrom [m, correlationKey] = messageKeyFrom [m', correlationKey'] →
        m = m' ∧ correlationKey = correlationKey') ↔
      ∀ m ∈ M, ∀ m' ∈ M, ∀ x, m' ≠ m ++ "-" ++ x := by
  constructor
  · rintro hinj m hm _ hm' x rfl
    -- any correlation key, and the one that starts with the rest of the longer name
    have hsame := (hinj _ hm' _ hm "" (x ++ "-" ++ "")
      ((join_eq_join_iff rfl).2 (.inr (.inr ⟨x, rfl, rfl⟩)))).1
    exact ne_append_sep (by decide) m x hsame.symm
  · intro hsep m hm m' hm' c c' hkey
    rcases (join_eq_join_iff rfl).1 hkey with h | ⟨x, hx, -⟩ | ⟨x, hx, -⟩
    · exact h
    · exact absurd hx (hsep m hm m' hm' x)
    · exact absurd hx (hsep m' hm' m hm x)

theorem clientTask_injective_iff {W M : Set String} : (∀ wf ∈ W, ∀ wf' ∈ W, ∀ m ∈ M, ∀ m' ∈ M,
      clientTaskKey wf m = clientTaskKey wf' m' → wf = wf' ∧ m = m') ↔
      ∀ wf ∈ W, ∀ wf' ∈ W, ∀ m ∈ M, ∀ m' ∈ M, ∀ x, wf' = wf ++ "_" ++ x → m ≠ x ++ "_" ++ m' := by
  constructor
  · rintro hinj wf hwf _ hwf' _ hm m' hm' x rfl rfl
    have hsame := (hinj wf hwf _ hwf' _ hm m' hm'
      ((join_eq_join_iff rfl).2 (.inr (.inl ⟨x, rfl, rfl⟩)))).1
    exact ne_append_sep (by decide) wf x hsame
  · intro hsep wf hwf wf' hwf' m hm m' hm' hkey
    rcases (join_eq_join_iff rfl).1 hkey with h | ⟨x, hx, hm₁⟩ | ⟨x, hx, hm₁⟩
    · exact h
    · exact absurd hm₁ (hsep wf hwf wf' hwf' m hm m' hm' x hx)
    · exact absurd hm₁ (hsep wf' hwf' wf hwf m' hm' m hm x hx)

/-! ### Fatal errors -/

theorem fatalErrorKey_toList (state : WorkflowState) :
    (fatalErrorKey state).toList = state.workflowName.toList ++ '.' :: (state.workflowId.toList ++
      '.' :: (state.executionId.toList ++ '.' :: (state.processInstanceId.toList ++
        '.' :: state.elementId.toList))) := by
  simp [fatalErrorKey]

/-- After the name of the workflow the key can be read in one way only. -/
theorem keyParts_eq_of_workflowName {state state' : WorkflowState} (h : state.Generated)
    (h' : state'.Generated) (hname : state.workflowName = state'.workflowName)
    (hkey : fatalErrorKey state = fatalErrorKey state') : state.keyParts = state'.keyParts := by
  have hlist := congrArg String.toList hkey
  rw [fatalErrorKey_toList, fatalErrorKey_toList, hname, append_cancel_left_eq,
    List.cons.injEq] at hlist
  obtain ⟨hworkflow, hlist⟩ := eq_of_append_cons_eq h.workflowId h'.workflowId hlist.2
  obtain ⟨hexecution, hlist⟩ := eq_of_append_cons_eq h.executionId h'.executionId hlist
  obtain ⟨hinstance, helement⟩ :=
    eq_of_append_cons_eq h.processInstanceId h'.processInstanceId hlist
  simp only [WorkflowState.keyParts, hname, String.toList_inj.1 hworkflow,
    String.toList_inj.1 hexecution, String.toList_inj.1 hinstance, String.toList_inj.1 helement]

/-- A text with enough dots is the end of the key of a fatal error. -/
theorem exists_fatalErrorKey {l : List Char} (wf : String) (hdots : 3 ≤ l.count '.') :
    ∃ state : WorkflowState, state.workflowName = wf ∧ state.Generated ∧
      (fatalErrorKey state).toList = wf.toList ++ '.' :: l := by
  have hcut : ∀ {n} {l : List Char}, n + 1 ≤ l.count '.' →
      ∃ a b, l = a ++ '.' :: b ∧ '.' ∉ a ∧ n ≤ b.count '.' := by
    intro n l hn
    have hmem : '.' ∈ l := count_pos_iff.1 (by omega)
    obtain ⟨a, b, hl, ha⟩ := eq_append_cons_of_mem hmem
    refine ⟨a, b, hl, ha, ?_⟩
    rw [hl, count_append, count_eq_zero.2 ha, count_cons_self] at hn
    omega
  obtain ⟨w, l, rfl, hw, hdots⟩ := hcut hdots
  obtain ⟨e, l, rfl, he, hdots⟩ := hcut hdots
  obtain ⟨p, l, rfl, hp, -⟩ := hcut hdots
  refine ⟨{
    workflowName := wf
    workflowId := String.ofList w
    executionId := String.ofList e
    processInstanceId := String.ofList p
    elementId := String.ofList l }, rfl, ⟨?_, ?_, ?_⟩, ?_⟩
  · rwa [String.toList_ofList]
  · rwa [String.toList_ofList]
  · rwa [String.toList_ofList]
  · simp only [fatalErrorKey_toList, String.toList_ofList]

theorem fatalError_injective_iff {W : Set String} :
    (∀ state state' : WorkflowState, state.workflowName ∈ W → state'.workflowName ∈ W →
      state.Generated → state'.Generated → fatalErrorKey state = fatalErrorKey state' →
        state.keyParts = state'.keyParts) ↔ ∀ wf ∈ W, ∀ wf' ∈ W, ∀ x, wf' ≠ wf ++ "." ++ x := by
  constructor
  · rintro hinj wf hwf _ hwf' x rfl
    -- with empty ids after the longer name, the rest of it is the first of the ids
    obtain ⟨state', hname', hstate', hkey'⟩ :=
      exists_fatalErrorKey (wf ++ "." ++ x) (by decide : 3 ≤ ['.', '.', '.'].count '.')
    obtain ⟨state, hname, hstate, hkey⟩ :=
      exists_fatalErrorKey wf (l := x.toList ++ '.' :: ['.', '.', '.']) (by simp)
    have hsame : fatalErrorKey state = fatalErrorKey state' := by
      rw [← String.toList_inj, hkey, hkey']
      simp
    have hparts := hinj state state' (hname ▸ hwf) (hname' ▸ hwf') hstate hstate' hsame
    have hnames := (List.cons.inj hparts).1
    rw [hname, hname'] at hnames
    exact ne_append_sep (by decide) wf x hnames
  · intro hsep state state' hwf hwf' hstate hstate' hkey
    have hjoin : ∀ state : WorkflowState, fatalErrorKey state = state.workflowName ++ "." ++
        (state.workflowId ++ "." ++ state.executionId ++ "." ++ state.processInstanceId ++ "." ++
          state.elementId) := by
      intro state
      simp only [fatalErrorKey, String.append_assoc]
    rcases (join_eq_join_iff rfl).1 (hjoin state ▸ hjoin state' ▸ hkey) with
      h | ⟨x, hx, -⟩ | ⟨x, hx, -⟩
    · exact keyParts_eq_of_workflowName hstate hstate' h.1 hkey
    · exact absurd hx (hsep _ hwf _ hwf' x)
    · exact absurd hx (hsep _ hwf' _ hwf x)

/-- **The keys of the store tell apart what they are made of**, over any workflow names and any
message names, exactly when no name goes on after another one and the separator. -/
theorem keysInjective_iff (W M : Set String) : KeysInjective W M ↔ Separated W M := by
  constructor
  · rintro ⟨hmessage, hfatal, htask⟩
    exact ⟨message_injective_iff.1 hmessage, fatalError_injective_iff.1 hfatal,
      clientTask_injective_iff.1 htask⟩
  · rintro ⟨hmessage, hfatal, htask⟩
    exact ⟨message_injective_iff.2 hmessage, fatalError_injective_iff.2 hfatal,
      clientTask_injective_iff.2 htask⟩

/-- Each kind of key is shared by two pairs of names that are admitted. -/
theorem keys_shared : (validName "order" = .done () ∧ validName "order-1" = .done () ∧
      messageKeyFrom ["order", "1-7"] = messageKeyFrom ["order-1", "7"]) ∧ (fatalErrorKey
          { workflowName := "pay", workflowId := "w", executionId := "e",
            processInstanceId := "p", elementId := "q.task" } =
        fatalErrorKey
          { workflowName := "pay.w", workflowId := "e", executionId := "p",
            processInstanceId := "q", elementId := "task" }) ∧
      (validName "done" = .done () ∧ validName "item_done" = .done () ∧
        clientTaskKey "pay" "item_done" = clientTaskKey "pay_item" "done") ∧
      ¬ KeysInjective Set.univ {m | validName m = .done ()} := by
  have hvalid : ∀ {name : String}, ¬ (name.toList = [] ∨ name.toList.head? = some '.' ∨
      name.toList.getLast? = some '.' ∨ name.toList.all validKeyChar = false) →
      validName name = .done () := fun h => if_neg h
  have hmessage : messageKeyFrom ["order", "1-7"] = messageKeyFrom ["order-1", "7"] := by
    decide +kernel
  refine ⟨⟨hvalid (by decide +kernel), hvalid (by decide +kernel), hmessage⟩, by decide +kernel,
    ⟨hvalid (by decide +kernel), hvalid (by decide +kernel), by decide +kernel⟩, fun h => ?_⟩
  have hsame := h.message "order" (hvalid (by decide +kernel)) "order-1"
    (hvalid (by decide +kernel)) _ _ hmessage
  exact absurd hsame.1 (by decide)

end SharWorkflow
