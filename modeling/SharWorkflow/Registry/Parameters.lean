import Mathlib.Data.List.TakeWhile
import SharWorkflow.Registry.Queries
import SharWorkflow.Variables.Definedness

/-!
# The parameters of a process

`ListExecutableProcesses` sends an item for each process of the newest workflows, with the variables
that its start events use. The loop that collects them adds all names found so far to the item after
**each** element, so a name is there once for every element from its start event on.

* `Process.StartUses`: the variables of the start events. `ExactParameters`: what should be sent.
* `ends_startParameters_count`: how often a name is sent.
* `executableParameters_exact_iff`: **the items for a process are exact, if and only if** one of its
  expressions cannot be parsed, in which case none is sent, or no element before the last one is a
  start event that uses a variable.
-/

namespace SharWorkflow

open Concurrent List World

variable {lib : Lib} {ns : String} {w : World} {X : Prop} {F : Op → Prop}

/-! ### What should be sent -/

/-- The element is a start event that uses the variable in its output transforms. -/
def Element.StartUses (lib : Lib) (el : Element) (v : String) : Prop :=
  el.type = .startEvent ∧ ∃ k ∈ el.outputTransform.keys,
    lib.Uses ((el.outputTransform.lookup k).getD "") v

/-- The output transforms of the element can be parsed, if it is a start event. -/
def Element.StartParses (lib : Lib) (el : Element) : Prop :=
  el.type = .startEvent → ∀ k ∈ el.outputTransform.keys,
    ∃ vars, lib.getVariables ((el.outputTransform.lookup k).getD "") = .ok vars

/-- A start event of the process uses the variable. -/
def Process.StartUses (lib : Lib) (p : Process) (v : String) : Prop :=
  ∃ el ∈ p.elements, el.StartUses lib v

/-- The start events of the process can be parsed. -/
def Process.StartParses (lib : Lib) (p : Process) : Prop := ∀ el ∈ p.elements, el.StartParses lib

/-- The parameters are the variables of the start events, each of them once. -/
structure ExactParameters (lib : Lib) (p : Process) (parameter : List String) : Prop where
  nodup : parameter.Nodup
  mem_iff : ∀ v, v ∈ parameter ↔ p.StartUses lib v

/-! ### The loop over the elements -/

theorem startVariables_cases (el : Element) (order : List String) :
    match startVariables lib el order with
    | .ok found =>
      (∀ k ∈ order, ∃ vars, lib.getVariables ((el.outputTransform.lookup k).getD "") = .ok vars) ∧
        ∀ v, v ∈ found ↔ ∃ k ∈ order, lib.Uses ((el.outputTransform.lookup k).getD "") v
    | .error _ =>
      ∃ k ∈ order, ∀ vars, lib.getVariables ((el.outputTransform.lookup k).getD "") ≠ .ok vars := by
  induction order with
  | nil => simp [startVariables]
  | cons k rest ih =>
    rw [startVariables]
    cases hvars : lib.getVariables ((el.outputTransform.lookup k).getD "") with
    | error e =>
      simp only
      exact ⟨k, mem_cons_self, fun vars => by rw [hvars]; nofun⟩
    | ok vars =>
      cases hrest : startVariables lib el rest with
      | error e =>
        rw [hrest] at ih
        obtain ⟨k', hk', hnone⟩ := ih
        exact ⟨k', mem_cons_of_mem k hk', hnone⟩
      | ok more =>
        rw [hrest] at ih
        refine ⟨forall_mem_cons.2 ⟨⟨vars, hvars⟩, ih.1⟩, fun v => ?_⟩
        rw [mem_append, ih.2, exists_mem_cons_iff, Lib.Uses, hvars]
        simp

/-- What is found at an element. -/
def FoundAt (lib : Lib) (el : Element) : Except Err (List String) → Prop
  | .ok found => el.StartParses lib ∧ ∀ v, v ∈ found ↔ el.StartUses lib v
  | .error _ => ¬ el.StartParses lib

theorem ends_startEventVariables (el : Element) :
    Ends (env F) X (fun w' r => w' = w ∧ ∃ found, r = .ok found ∧ FoundAt lib el found) w
      (startEventVariables lib el).run := by
  rw [startEventVariables, ends_run_ite]
  refine ⟨fun hstart => ends_seq.2 (ends_mapOrder.2 fun order hperm => ends_pure.2 ?_), fun hne =>
    ends_pure.2 ⟨rfl, _, rfl, fun hstart => absurd hstart hne, fun v => ?_⟩⟩
  · refine ⟨rfl, _, rfl, ?_⟩
    have hcases := @startVariables_cases lib el order
    cases hfound : startVariables lib el order with
    | error e =>
      rw [hfound] at hcases
      obtain ⟨k, hk, hnone⟩ := hcases
      intro hparses
      obtain ⟨vars, hvars⟩ := hparses hstart k (hperm.mem_iff.1 hk)
      exact hnone vars hvars
    | ok found =>
      rw [hfound] at hcases
      refine ⟨fun _ k hk => hcases.1 k (hperm.mem_iff.2 hk), fun v => ?_⟩
      simp only [hcases.2, Element.StartUses, hstart, true_and, hperm.mem_iff]
  · simp [Element.StartUses, hne]

open Classical in
/-- How often a name is sent, if the names `startParam` were found before: once for every element
from its start event on. -/
noncomputable def timesSent (lib : Lib) (startParam : List String) (els : List Element)
    (v : String) : ℕ :=
  if v ∈ startParam then els.length
  else (els.dropWhile fun el => ¬ el.StartUses lib v).length

/-- What is made of the elements. -/
def SentBy (lib : Lib) (startParam parameter : List String) (els : List Element) :
    Except Err (List String) → Prop
  | .ok sent => (∀ el ∈ els, el.StartParses lib) ∧
      ∀ v, sent.count v = parameter.count v + timesSent lib startParam els v
  | .error _ => ∃ el ∈ els, ¬ el.StartParses lib

/-- The names that are added after an element. -/
theorem count_names {startParam found names : List String} {el : Element}
    (hfound : ∀ v, v ∈ found ↔ el.StartUses lib v) (hperm : names.Perm (startParam ++ found).dedup)
    (els : List Element) (v : String) :
    names.count v + timesSent lib (startParam ++ found).dedup els v =
      timesSent lib startParam (el :: els) v := by
  classical
  have hmem : v ∈ (startParam ++ found).dedup ↔ v ∈ startParam ∨ el.StartUses lib v := by
    rw [mem_dedup, mem_append, hfound]
  have hcount : names.count v = if v ∈ startParam ∨ el.StartUses lib v then 1 else 0 := by
    rw [hperm.count_eq, count_dedup]
    simp only [mem_append, hfound]
  simp only [hcount, timesSent, hmem, dropWhile_cons, length_cons]
  by_cases hstart : v ∈ startParam
  · simp [hstart, Nat.add_comm]
  · by_cases huses : el.StartUses lib v
    · simp [hstart, huses, Nat.add_comm]
    · simp [hstart, huses]

/-- **How often a name is sent.** -/
theorem ends_startParameters_count (els : List Element) : ∀ startParam parameter : List String,
    Ends (env F) X
      (fun w' r => w' = w ∧ ∃ sent, r = .ok sent ∧ SentBy lib startParam parameter els sent) w
      (startParameters lib startParam parameter els).run := by
  induction els with
  | nil =>
    refine fun startParam parameter => ends_pure.2 ⟨rfl, _, rfl, by simp, fun v => ?_⟩
    simp [timesSent]
  | cons el rest ih =>
    intro startParam parameter
    refine ends_seq.2 ((ends_startEventVariables el).mono ?_)
    rintro w' _ ⟨rfl, e | found, rfl, hfound⟩
    · exact ends_pure.2 ⟨rfl, _, rfl, el, mem_cons_self, hfound⟩
    refine ends_seq.2 (ends_mapOrder.2 fun names hperm => (ih _ _).mono ?_)
    rintro w'' _ ⟨rfl, e | sent, rfl, hsent⟩
    · obtain ⟨el', hel', hnot⟩ := hsent
      exact ⟨rfl, _, rfl, el', mem_cons_of_mem el hel', hnot⟩
    · refine ⟨rfl, _, rfl, forall_mem_cons.2 ⟨hfound.1, hsent.1⟩, fun v => ?_⟩
      rw [hsent.2, count_append, Nat.add_assoc, count_names hfound.2 hperm]

/-! ### Exact parameters -/

theorem length_dropWhile_le_one_iff {α : Type*} {p : α → Bool} (l : List α) :
    (l.dropWhile p).length ≤ 1 ↔ ∀ a ∈ l.dropLast, p a = true := by
  induction l with
  | nil => simp
  | cons a l ih =>
    cases l with
    | nil =>
      rw [dropLast_singleton]
      have hle := (dropWhile_sublist p (l := [a])).length_le
      exact iff_of_true hle (by simp)
    | cons b l =>
      rw [dropLast_cons_cons, forall_mem_cons, dropWhile_cons]
      split_ifs with ha
      · rw [ih, and_iff_right ha]
      · simp [ha]

/-- What the loop makes of a process is exact exactly if its start events, without the last element,
use no variables. -/
theorem exactParameters_iff {p : Process} {sent : List String}
    (h : SentBy lib [] [] p.elements (.ok sent)) :
    ExactParameters lib p sent ↔ ∀ el ∈ p.elements.dropLast, ∀ v, ¬ el.StartUses lib v := by
  classical
  have hcount : ∀ v, sent.count v =
      (p.elements.dropWhile fun el => ¬ el.StartUses lib v).length := by
    intro v
    rw [h.2, timesSent, if_neg not_mem_nil, count_nil, Nat.zero_add]
  have hnodup : sent.Nodup ↔ ∀ el ∈ p.elements.dropLast, ∀ v, ¬ el.StartUses lib v := by
    simp only [nodup_iff_count_le_one, hcount, length_dropWhile_le_one_iff,
      decide_eq_true_eq]
    exact ⟨fun h el hel v => h v el hel, fun h v el hel => h el hel v⟩
  refine ⟨fun hexact => hnodup.1 hexact.nodup, fun hnone => ⟨hnodup.2 hnone, fun v => ?_⟩⟩
  rw [← count_pos_iff, hcount, length_pos_iff, ne_eq, dropWhile_eq_nil_iff,
    Process.StartUses]
  simp

/-- What the loop makes of the elements of a process. -/
def SentFor (lib : Lib) (p : Process) (names : List String) : Prop :=
  SentBy lib [] [] p.elements (.ok names)

theorem collectsFor_sentFor : CollectsFor lib F X w (SentFor lib) := by
  refine fun p => (ends_startParameters_count p.elements [] []).mono ?_
  rintro w' _ ⟨rfl, sent, rfl, hsent⟩
  refine ⟨rfl, sent, rfl, ?_⟩
  rintro names rfl
  exact hsent

theorem ends_listExecutableProcesses :
    Ends (env F) True (fun _ r => ∀ items, r = .ok items → ItemsStored (SentFor lib) w ns items)
      w (listExecutableProcesses lib ns).run := by
  have herror (e : Err) (items) (h : (.ok [.error e] : Except Err _) = .ok items) :
      ItemsStored (SentFor lib) w ns items := Except.ok.inj h ▸ itemsStored_errors [e]
  rw [listExecutableProcesses, ends_seq, ends_attempt, ends_nsKVs]
  refine ⟨ends_seq.2 (ends_attempt.2 (ends_wrap.2 ((ends_perform (o := .keys ns .wfVersion)
    (by simp)).2 ?_))), fun _ text => ends_pure.2 (herror _)⟩
  rintro r w' ⟨rfl, h⟩
  cases r with
  | error e => exact ends_pure.2 (herror _)
  | ok keys => exact (ends_listExecutable collectsFor_sentFor (.inl trivial)).mono fun _ _ h => h.2

/-! ### A store with one process -/

/-- The only process of the only workflow that is stored. -/
def soleStore (p : Process) : World :=
  (({} : World).put ⟨"", .wfVersion, "w"⟩ ({ version := [{ id := "1" }] } : WorkflowVersions)).put
    ⟨"", .wf, "1"⟩ ({ name := "w", process := AList.singleton p.id p } : Workflow)

theorem soleStore_versions (p : Process) : (soleStore p).value ⟨"", .wfVersion, "w"⟩ =
      some ({ version := [{ id := "1" }] } : WorkflowVersions) := by
  rw [soleStore, put_value_of_ne _ _ (by simp), put_value_self]

theorem soleStore_workflow (p : Process) : (soleStore p).value ⟨"", .wf, "1"⟩ =
      some ({ name := "w", process := AList.singleton p.id p } : Workflow) :=
  put_value_self _ _ _

theorem soleStore_versions_of_ne (p : Process) {k : String} (hk : k ≠ "w") :
    (soleStore p).value ⟨"", .wfVersion, k⟩ = none := by
  rw [soleStore, put_value_of_ne _ _ (by simp), put_value_of_ne _ _ (by simp [hk])]
  rfl

theorem soleStore_keysIn (p : Process) : (soleStore p).keysIn "" .wfVersion = ["w"] := by
  have hwritten : (soleStore p).written = [⟨"", .wf, "1"⟩, ⟨"", .wfVersion, "w"⟩] := rfl
  simp [World.keysIn, hwritten, soleStore_versions]

theorem lookup_singleton_self {β : Type} (k : String) (v : β) :
    (AList.singleton k v : GoMap β).lookup k = some v := by
  rw [AList.lookup, AList.singleton_entries, dlookup_cons_eq]

theorem soleStore_stores_iff {p p' : Process} : (soleStore p).Stores "" p' ↔ p' = p := by
  constructor
  · rintro ⟨wf, ⟨k, wfv, latest, hwfv, hlatest, hwf⟩, key, hkey⟩
    by_cases hk : k = "w"
    · subst hk
      obtain rfl := Option.mem_unique (soleStore_versions p) hwfv
      obtain rfl := Option.some.inj hlatest
      obtain rfl := Option.mem_unique (soleStore_workflow p) hwf
      have hmem := AList.mem_lookup_iff.1 hkey
      rw [AList.singleton_entries, mem_singleton] at hmem
      cases hmem
      rfl
    · rw [soleStore_versions_of_ne p hk] at hwfv
      cases hwfv
  · rintro rfl
    exact ⟨_, ⟨"w", _, _, soleStore_versions p', rfl, soleStore_workflow p'⟩, p'.id,
      lookup_singleton_self _ _⟩

/-- A process that can be parsed is sent. -/
theorem ends_soleStore {p : Process} (hparses : p.StartParses lib) :
    Ends (env noFault) False
      (fun _ r => ∃ item, r = .ok [.ok item] ∧ IsItemOf (SentFor lib) p item) (soleStore p)
      (listExecutableProcesses lib "").run := by
  rw [listExecutableProcesses, ends_seq, ends_attempt, ends_nsKVs]
  refine ⟨ends_seq.2 (ends_attempt.2 (ends_wrap.2 (ends_kvKeys.2 ?_))), False.elim⟩
  rw [soleStore_keysIn]
  refine ⟨by simp, fun _ keys hperm => ?_⟩
  obtain rfl := perm_singleton.1 hperm
  have hload {l : Loc} {v : l.Val} {text : String} {zero : l.Val}
      {Q : World → Except Err (Option (l.Val × List Err)) → Prop}
      (hv : (soleStore p).value l = some v) (hQ : Q (soleStore p) (.ok (some (v, [])))) :
      Ends (env noFault) False Q (soleStore p) (loadOrSend text l zero).run :=
    ends_loadOrSend (by simp [hv]) (fun v' hv' => Option.mem_unique hv hv' ▸ hQ) False.elim
  change Ends _ _ _ _ (listExecutable lib "" ["w"]).run
  rw [listExecutable, ends_seq]
  refine hload (soleStore_versions p) (ends_seq.2 (ends_deref.2 ⟨by simp, ?_⟩))
  rintro _ ⟨⟩
  refine ends_seq.2 (hload (soleStore_workflow p)
    (ends_seq.2 (ends_mapOrder.2 fun order hperm => ?_)))
  obtain rfl : order = [p.id] := perm_singleton.1 hperm
  refine ends_seq.2 ?_
  rw [listProcesses, lookup_singleton_self, Option.getD_some]
  refine ends_seq.2 ((ends_startParameters_count _ _ _).mono ?_)
  rintro w' _ ⟨rfl, e | sent, rfl, hsent⟩
  · obtain ⟨el, hel, hnot⟩ := hsent
    exact absurd (hparses el hel) hnot
  · refine ends_seq.2 (ends_pure.2 (ends_pure.2 (ends_run_ite.2 ⟨fun _ => ?_, by simp⟩)))
    exact ends_seq.2 (ends_pure.2 (ends_pure.2 ⟨_, rfl, rfl, hsent⟩))

/-- **The items of a process are exact in every store, if and only if** none is ever sent, or no
element before the last one is a start event that uses a variable. -/
theorem executableParameters_exact_iff (lib : Lib) (p : Process) :
    (∀ F w ns, w.Stores ns p → (∀ p', w.Stores ns p' → p'.id = p.id → p' = p) →
      Ends (env F) True (fun _ r => ∀ items, r = .ok items → ∀ item, .ok item ∈ items →
        item.processId = p.id → ExactParameters lib p item.parameter) w
        (listExecutableProcesses lib ns).run) ↔
      (¬ p.StartParses lib ∨ ∀ el ∈ p.elements.dropLast, ∀ v, ¬ el.StartUses lib v) := by
  constructor
  · intro hexact
    by_cases hparses : p.StartParses lib
    · have hends := hexact noFault (soleStore p) "" (soleStore_stores_iff.2 rfl)
        fun p' hp' _ => soleStore_stores_iff.1 hp'
      obtain ⟨w', r, hexec, item, rfl, hitem⟩ := (ends_soleStore hparses).can
      have hitemExact := hends.exec hexec _ rfl item List.mem_cons_self hitem.1
      exact .inr ((exactParameters_iff hitem.2).1 hitemExact)
    · exact .inl hparses
  · intro hcondition F w ns hstored hunique
    refine ends_listExecutableProcesses.mono fun _ r hitems items hr item hitem hid => ?_
    obtain ⟨p', hp', hof⟩ := hitems items hr item hitem
    obtain rfl := hunique p' hp' (hof.1.symm.trans hid)
    exact (exactParameters_iff hof.2).2 (hcondition.resolve_left fun hnot => hnot hof.2.1)

/-- A start event that asks for a name, and the end event after it. -/
def nameProcess : Process where
  id := "p"
  elements := [
    { type := .startEvent, id := "start", outputTransform := AList.singleton "name" "=name" },
    { type := .endEvent, id := "end" }]

/-- The name is sent twice. -/
theorem name_sent_twice : Can (env noFault)
      (fun _ r => ∃ item, r = .ok [.ok item] ∧ item.processId = "p" ∧
        item.parameter.count "name" = 2 ∧
        ¬ ExactParameters { constLib ∅ with getVariables := fun _ => .ok ["name"] } nameProcess
          item.parameter)
      (soleStore nameProcess)
      (listExecutableProcesses { constLib ∅ with getVariables := fun _ => .ok ["name"] }
      "").run := by
  refine (ends_soleStore fun el _ _ k _ => ⟨_, rfl⟩).can.mono ?_
  rintro _ _ ⟨item, rfl, hid, hsent⟩
  have huses : Element.StartUses { constLib ∅ with getVariables := fun _ => .ok ["name"] }
      { type := .startEvent, id := "start", outputTransform := AList.singleton "name" "=name" }
      "name" :=
    ⟨rfl, "name", List.mem_singleton_self _, _, rfl, List.mem_singleton_self _⟩
  have hcount : item.parameter.count "name" = 2 := by
    rw [hsent.2, timesSent, if_neg List.not_mem_nil, nameProcess, List.dropWhile_cons,
      if_neg (by simpa using huses)]
    rfl
  refine ⟨item, rfl, hid, hcount, fun hexact => ?_⟩
  have hle := List.nodup_iff_count_le_one.1 hexact.nodup "name"
  omega

end SharWorkflow
