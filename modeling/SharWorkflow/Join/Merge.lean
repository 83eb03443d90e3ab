import SharWorkflow.Model.Vars

/-!
# The merge of the variables at a join

A join merges the variables of its branches over those of the split: a branch **writes** a variable
when the split has no such variable, or when its value there compares as different. The comparison
panics on two values of the same uncomparable type, and the assignment panics when the split was
decoded to a nil map; nothing recovers the panic. So the merge returns exactly when no branch meets
a list, a map or a byte string of the split with another one, and none has a variable for a split
that is nil (`merge_returns_iff`).

The comparison is that of the language, for which a NaN differs from itself while the two zeros
are equal. When every variable is changed by one branch at most, the merge is the split's variables
with all changes, in whichever order the branches arrive; except that a branch which has left a NaN
alone writes it again over the change of another branch, and a zero that has changed its sign is not
written at all (`merge_ordered_iff`).

* `mergeBranch_eq_none_iff`, `lookup_of_mergeBranch`: what the loop over one branch does.
* `lastWritten`, `Lib.mergeBranches_eq_none_iff`, `Lib.mergeBranches_of_reads`: the loop over all of
  them, where the last branch that writes a variable wins.
-/

namespace SharWorkflow

open List AList

/-! ### The comparison -/

/-- Two values of the same uncomparable type: byte strings, lists or maps. -/
def Value.Incomparable : Value → Value → Prop
  | bytes _, bytes _ => True
  | stringList _, stringList _ => True
  | list _, list _ => True
  | map _, map _ => True
  | _, _ => False

/-- The scalar values. -/
def Value.IsScalar : Value → Prop
  | bool _ => True
  | int _ _ => True
  | float _ => True
  | string _ => True
  | _ => False

theorem Value.ne?_eq_none_iff (x y : Value) : x.ne? y = none ↔ x.Incomparable y := by
  cases x <;> cases y <;> simp [ne?, Incomparable]

/-- A scalar that is not a NaN compares as equal with itself and, sign changes of a zero apart, with
nothing else. -/
theorem Value.ne?_eq_some_false_iff {x y : Value} (hx : x.IsScalar) : x.ne? y = some false ↔
      (x = y ∧ ∀ a, x = .float a → floatIsNaN a = false) ∨
        ∃ a b, x = .float a ∧ y = .float b ∧ floatIsZero a = true ∧ floatIsZero b = true ∧
          floatIsNaN a = false ∧ floatIsNaN b = false := by
  cases x <;> cases y <;> simp [ne?, IsScalar] at hx ⊢
  rename_i a b
  by_cases hab : a = b
  · subst hab
    cases floatIsNaN a <;> simp
  · simp only [hab, false_or, false_and]
    cases floatIsNaN a <;> cases floatIsNaN b <;> simp

theorem floatIsNaN_of_floatIsZero {a : UInt64} (h : floatIsZero a = true) :
    floatIsNaN a = false := by
  rw [floatIsZero, decide_eq_true_eq] at h
  rw [floatIsNaN, h]
  decide

/-! ### One branch -/

/-- The variable `k` of a branch cannot be merged over those of the split: the split is the nil map,
or holds a value that cannot be compared with `x`. -/
def Vars.Rejects : Vars → String → Value → Prop
  | none, _, _ => True
  | some base, k, x => ∃ bv, base.lookup k = some bv ∧ bv.Incomparable x

/-- The branch value `x` of the variable `k` is written. -/
def writes (base : GoMap Value) (k : String) (x : Value) : Bool :=
  (Lib.differs? base k x).getD false

/-- What the branch `v` writes to the variable `k`. -/
def written? (base v : GoMap Value) (k : String) : Option Value :=
  (v.lookup k).filter (writes base k)

variable {k : String} {base ret ret' : Vars} {l : List (Sigma fun _ : String => Value)}

theorem differs?_eq_none_iff {base : GoMap Value} {x : Value} :
    Lib.differs? base k x = none ↔ ∃ bv, base.lookup k = some bv ∧ bv.Incomparable x := by
  cases hbase : base.lookup k with
  | none => simp [Lib.differs?, hbase]
  | some bv => simp [Lib.differs?, hbase, Value.ne?_eq_none_iff]

/-- One step of the loop over a branch: it panics on a variable that cannot be merged, and goes on
with the value written or not otherwise. -/
theorem mergeBranch_cons (hret : ret.isSome = base.isSome) (x : Value) :
    (Lib.mergeBranch (base.getD ∅) (⟨k, x⟩ :: l) ret = none ∧ base.Rejects k x) ∨
      ∃ r r', ret = some r ∧ r' = (if writes (base.getD ∅) k x then r.insert k x else r) ∧
        ¬ base.Rejects k x ∧ Lib.mergeBranch (base.getD ∅) (⟨k, x⟩ :: l) ret =
          Lib.mergeBranch (base.getD ∅) l (some r') := by
  match base, ret, hret with
  | none, none, _ => exact .inl ⟨rfl, trivial⟩
  | some base, some r, _ =>
    have hnone := @differs?_eq_none_iff k base x
    cases hdiffers : Lib.differs? base k x with
    | none => exact .inl ⟨by simp [Lib.mergeBranch, hdiffers], hnone.1 hdiffers⟩
    | some differs =>
      refine .inr ⟨r, _, rfl, rfl, fun h => ?_, ?_⟩
      · cases hdiffers.symm.trans (hnone.2 h)
      · cases differs <;> simp [Lib.mergeBranch, writes, hdiffers, Vars.set?]

/-- The loop over one branch panics exactly when it comes to a variable that cannot be merged. -/
theorem mergeBranch_eq_none_iff (hret : ret.isSome = base.isSome) :
    Lib.mergeBranch (base.getD ∅) l ret = none ↔ ∃ k x, ⟨k, x⟩ ∈ l ∧ base.Rejects k x := by
  induction l generalizing ret with
  | nil => simp [Lib.mergeBranch]
  | cons entry rest ih =>
    obtain ⟨k, x⟩ := entry
    rcases mergeBranch_cons hret x with ⟨hnone, hrejects⟩ | ⟨r, r', rfl, -, hmerges, hstep⟩
    · exact iff_of_true hnone ⟨k, x, mem_cons_self, hrejects⟩
    · rw [hstep, @ih (some r') hret]
      constructor
      · rintro ⟨k', x', hmem, h⟩
        exact ⟨k', x', mem_cons_of_mem _ hmem, h⟩
      · rintro ⟨k', x', hmem, h⟩
        rcases mem_cons.1 hmem with heq | hmem
        · cases heq
          exact absurd h hmerges
        · exact ⟨k', x', hmem, h⟩

/-- The loop over one branch writes what differs, and leaves the rest. -/
theorem lookup_of_mergeBranch (hret : ret.isSome = base.isSome) (hl : l.NodupKeys)
    (h : Lib.mergeBranch (base.getD ∅) l ret = some ret') (k : String) :
    ret'.isSome = base.isSome ∧ (ret'.getD ∅).lookup k =
      ((l.dlookup k).filter (writes (base.getD ∅) k)).or ((ret.getD ∅).lookup k) := by
  induction l generalizing ret with
  | nil =>
    cases h
    exact ⟨hret, by simp⟩
  | cons entry rest ih =>
    obtain ⟨k₀, x⟩ := entry
    rw [nodupKeys_cons] at hl
    rcases mergeBranch_cons hret x with ⟨hnone, -⟩ | ⟨r, r', rfl, hr', -, hstep⟩
    · cases hnone.symm.trans h
    · obtain ⟨hsome, hlookup⟩ := @ih (some r') hret hl.2 (hstep.symm.trans h)
      refine ⟨hsome, hlookup.trans ?_⟩
      subst hr'
      by_cases hk : k = k₀
      · subst hk
        rw [dlookup_eq_none.2 hl.1, dlookup_cons_eq]
        cases hw : writes (base.getD ∅) k x <;> simp [hw, Option.filter]
      · rw [dlookup_cons_ne _ _ hk]
        cases writes (base.getD ∅) k₀ x <;> simp [lookup_insert_ne hk]

/-! ### All branches -/

/-- What the last of the branches that write the variable `k` writes. -/
def lastWritten (base : GoMap Value) : List (GoMap Value) → String → Option Value
  | [], _ => none
  | v :: vs, k => (lastWritten base vs k).or (written? base v k)

theorem lastWritten_concat (base : GoMap Value) (vs : List (GoMap Value)) (v : GoMap Value)
    (k : String) :
    lastWritten base (vs ++ [v]) k = (written? base v k).or (lastWritten base vs k) := by
  induction vs with
  | nil => simp [lastWritten]
  | cons v' vs ih =>
    rw [cons_append, lastWritten, ih, lastWritten, Option.or_assoc]

variable {vs : List (GoMap Value)}

/-- What is written is written by one of the branches. -/
theorem exists_of_lastWritten {base : GoMap Value} {x : Value}
    (h : lastWritten base vs k = some x) : ∃ v ∈ vs, written? base v k = some x := by
  induction vs with
  | nil => cases h
  | cons v vs ih =>
    rw [lastWritten, Option.or_eq_some_iff] at h
    rcases h with h | ⟨-, h⟩
    · obtain ⟨v', hv', hwritten⟩ := ih h
      exact ⟨v', mem_cons_of_mem _ hv', hwritten⟩
    · exact ⟨v, mem_cons_self, h⟩

theorem lastWritten_eq_none_iff {base : GoMap Value} :
    lastWritten base vs k = none ↔ ∀ v ∈ vs, written? base v k = none := by
  induction vs with
  | nil => simp [lastWritten]
  | cons v vs ih =>
    rw [lastWritten, Option.or_eq_none_iff, ih, forall_mem_cons, and_comm]

namespace Lib

variable {lib : Lib}

/-- The loop over all branches panics exactly when it comes to a variable that cannot be merged, in
a branch before which all could be decoded. -/
theorem mergeBranches_eq_none_iff (hret : ret.isSome = base.isSome) (i : Nat) (bs : List Bytes) :
    lib.mergeBranches (base.getD ∅) i bs ret = none ↔
      ∃ pre b post v, bs = pre ++ b :: post ∧ (∀ c ∈ pre, ∃ v, lib.readVars c = .ok v) ∧
        lib.readVars b = .ok v ∧ ∃ k x, v.lookup k = some x ∧ base.Rejects k x := by
  induction bs generalizing i ret with
  | nil => simp [mergeBranches]
  | cons b bs ih =>
    unfold mergeBranches
    cases hread : lib.readVars b with
    | error e =>
      simp only [reduceCtorEq, false_iff, not_exists]
      rintro pre b' post v ⟨hbs, hpre, hb', -⟩
      cases pre with
      | nil =>
        obtain ⟨rfl, rfl⟩ : b = b' ∧ bs = post := by simpa using hbs
        cases hread.symm.trans hb'
      | cons c pre =>
        obtain ⟨rfl, -⟩ : b = c ∧ _ := by simpa using hbs
        obtain ⟨v', hv'⟩ := hpre b (by simp)
        cases hread.symm.trans hv'
    | ok v =>
      have hbranch := @mergeBranch_eq_none_iff base ret v.entries hret
      dsimp only
      cases hmerge : mergeBranch (base.getD ∅) v.entries ret with
      | none =>
        obtain ⟨k, x, hx, hrejects⟩ := hbranch.1 hmerge
        exact iff_of_true rfl
          ⟨[], b, bs, v, rfl, by simp, hread, k, x, mem_lookup_iff.2 hx, hrejects⟩
      | some ret' =>
        dsimp only
        rw [ih (lookup_of_mergeBranch hret v.nodupKeys hmerge "").1]
        constructor
        · rintro ⟨pre, b', post, v', rfl, hpre, h⟩
          refine ⟨b :: pre, b', post, v', rfl, ?_, h⟩
          simpa [hread] using hpre
        · rintro ⟨pre, b', post, v', hbs, hpre, hb', k, x, hx, hrejects⟩
          cases pre with
          | nil =>
            obtain ⟨rfl, rfl⟩ : b = b' ∧ bs = post := by simpa using hbs
            cases hread.symm.trans hb'
            cases hmerge.symm.trans (hbranch.2 ⟨k, x, mem_lookup_iff.1 hx, hrejects⟩)
          | cons c pre =>
            obtain ⟨rfl, rfl⟩ : b = c ∧ bs = pre ++ b' :: post := by simpa using hbs
            exact ⟨pre, b', post, v', rfl, fun d hd => hpre d (by simp [hd]), hb', k, x, hx,
              hrejects⟩

/-- The loop over branches that can all be decoded and merged. -/
theorem mergeBranches_of_reads {i : Nat} {branches : List (Bytes × GoMap Value)}
    (hret : ret.isSome = base.isSome) (hread : ∀ b ∈ branches, lib.readVars b.1 = .ok b.2)
    (hmerges : ∀ b ∈ branches, ∀ k x, b.2.lookup k = some x → ¬ base.Rejects k x) :
    ∃ ret', lib.mergeBranches (base.getD ∅) i (branches.map Prod.fst) ret = some (.ok ret') ∧
      ∀ k, (ret'.getD ∅).lookup k =
        (lastWritten (base.getD ∅) (branches.map Prod.snd) k).or ((ret.getD ∅).lookup k) := by
  induction branches generalizing i ret with
  | nil => exact ⟨ret, rfl, fun k => by simp [lastWritten]⟩
  | cons b branches ih =>
    rw [forall_mem_cons] at hread hmerges
    cases hmerge : mergeBranch (base.getD ∅) b.2.entries ret with
    | none =>
      obtain ⟨k, x, hx, hrejects⟩ := (mergeBranch_eq_none_iff hret).1 hmerge
      exact absurd hrejects (hmerges.1 k x (mem_lookup_iff.2 hx))
    | some ret' =>
      have hbranch := lookup_of_mergeBranch hret b.2.nodupKeys hmerge
      obtain ⟨ret'', hrest, hlookup⟩ := @ih ret' (i + 1) (hbranch "").1 hread.2 hmerges.2
      refine ⟨ret'', ?_, fun k => ?_⟩
      · rw [map_cons, mergeBranches, hread.1]
        dsimp only
        rw [hmerge]
        exact hrest
      · rw [hlookup, (hbranch k).2, map_cons, lastWritten, Option.or_assoc]
        rfl

end Lib

/-! ### Panics -/

/-- A branch, before which all can be decoded, has a variable that cannot be merged: the split is
the nil map, or holds a value with which that of the branch cannot be compared. -/
def Gateway.Clashes (lib : Lib) (gw : Gateway) : Prop :=
  ∃ split base pre b post v, gw.vars = split :: (pre ++ b :: post) ∧ lib.decode split = .ok base ∧
    (∀ c ∈ pre, ∃ v, lib.readVars c = .ok v) ∧ lib.readVars b = .ok v ∧
    ∃ k x, v.lookup k = some x ∧ base.Rejects k x

/-- **The merge returns**, with variables or an error, exactly when there are variables to merge and
no branch clashes with the split. -/
theorem merge_returns_iff (lib : Lib) (gw : Gateway) :
    lib.mergeGatewayVars gw ≠ none ↔ gw.vars ≠ [] ∧ ¬ gw.Clashes lib := by
  unfold Lib.mergeGatewayVars
  cases hvars : gw.vars with
  | nil => simp
  | cons split rest =>
    cases rest with
    | nil =>
      refine iff_of_true nofun ⟨nofun, ?_⟩
      rintro ⟨split', base, pre, b, post, v, heq, -⟩
      rw [hvars] at heq
      simp at heq
    | cons b bs =>
      dsimp only
      cases hdecode : lib.decode split with
      | error e =>
        refine iff_of_true nofun ⟨nofun, ?_⟩
        rintro ⟨split', base, pre, b', post, v, heq, hsplit, -⟩
        obtain ⟨rfl, -⟩ := List.cons.inj (hvars.symm.trans heq)
        cases hdecode.symm.trans hsplit
      | ok base =>
        -- the loop over the branches panics exactly when one of them clashes
        have hclash : gw.Clashes lib ↔
            lib.mergeBranches (base.getD ∅) 1 (b :: bs) base = none := by
          rw [Lib.mergeBranches_eq_none_iff rfl, Gateway.Clashes]
          constructor
          · rintro ⟨split', base', pre, b', post, v, heq, hsplit, h⟩
            obtain ⟨rfl, hrest⟩ := List.cons.inj (hvars.symm.trans heq)
            cases hdecode.symm.trans hsplit
            exact ⟨pre, b', post, v, hrest, h⟩
          · rintro ⟨pre, b', post, v, hrest, h⟩
            exact ⟨split, base, pre, b', post, v, hvars.trans (by rw [hrest]), hdecode, h⟩
        rw [hclash]
        dsimp only
        cases lib.mergeBranches (base.getD ∅) 1 (b :: bs) base with
        | none => simp
        | some r =>
          cases r with
          | error e => simp
          | ok ret =>
            dsimp only
            cases lib.encode ret <;> simp

/-- The variables with a struct `order` of the one field `id`, and their encoding. -/
def orderVals : GoMap Value := AList.singleton "order" (.map [("id", .float 0x401c000000000000)])

@[inherit_doc orderVals]
def orderVars : Bytes :=
  [0x81, 0xa5, 0x6f, 0x72, 0x64, 0x65, 0x72, 0x81, 0xa2, 0x69, 0x64,
    0xcb, 0x40, 0x1c, 0, 0, 0, 0, 0, 0]

/-- **A merge that panics.** The token of a branch carries the struct that the split had. -/
theorem merge_panics_on_structs :
    (constLib orderVals).mergeGatewayVars { vars := [orderVars, orderVars] } = none := rfl

/-! ### The order of the branches -/

/-- The branch `v` changes the variable `k` of the split, or adds it. -/
def Changes (base v : GoMap Value) (k : String) : Prop :=
  ∃ x, v.lookup k = some x ∧ base.lookup k ≠ some x

/-- What a join merges when every variable is a scalar, each branch has kept all variables of the
split, and each variable is changed or added by one branch at most. -/
structure MergeInput (lib : Lib) where
  split : Bytes
  base : Vars
  branches : List (Bytes × GoMap Value)
  decodes_split : lib.decode split = .ok base
  reads : ∀ b ∈ branches, lib.readVars b.1 = .ok b.2
  ne_nil : branches ≠ []
  scalar_split : ∀ k x, (base.getD ∅).lookup k = some x → x.IsScalar
  scalar : ∀ b ∈ branches, ∀ k x, b.2.lookup k = some x → x.IsScalar
  keeps : ∀ b ∈ branches, ∀ k x, (base.getD ∅).lookup k = some x → ∃ y, b.2.lookup k = some y
  once : branches.Pairwise fun b b' => ∀ k,
    ¬ (Changes (base.getD ∅) b.2 k ∧ Changes (base.getD ∅) b'.2 k)

namespace MergeInput

variable {lib : Lib} (B : MergeInput lib)

/-- The variables of the split. -/
abbrev vals : GoMap Value := B.base.getD ∅

/-- The variables are those of the split, updated with the changes of all branches. -/
def Updated (m : GoMap Value) : Prop :=
  ∀ k, (∀ b ∈ B.branches, Changes B.vals b.2 k → m.lookup k = b.2.lookup k) ∧
    ((∀ b ∈ B.branches, ¬ Changes B.vals b.2 k) → m.lookup k = B.vals.lookup k)

/-- The merge returns the updated variables, in whichever order the branches have arrived. -/
def MergesAlike : Prop :=
  ∃ m, B.Updated m ∧ ∀ order : List (Bytes × GoMap Value), order.Perm B.branches →
    ∀ gw : Gateway, gw.vars = B.split :: order.map Prod.fst →
      ∃ merged m', lib.mergeGatewayVars gw = some (.ok merged) ∧ lib.readVars merged = .ok m' ∧
        ∀ k, m'.lookup k = m.lookup k

/-- The variables are taken from those of the split and of the branches. -/
def Made (vals : GoMap Value) : Prop :=
  ∀ k x, vals.lookup k = some x →
    B.vals.lookup k = some x ∨ ∃ b ∈ B.branches, b.2.lookup k = some x

/-- What is encoded is read back. -/
def RoundTrips : Prop :=
  ∀ vars : Vars, B.Made (vars.getD ∅) →
    ∃ b, lib.encode vars = .ok b ∧ lib.readVars b = .ok (vars.getD ∅)

/-- The split is not the nil map, unless no branch has a variable. -/
def Writable : Prop := B.base = none → ∀ b ∈ B.branches, ∀ k, b.2.lookup k = none

/-- No branch changes the sign of a zero. -/
def KeepsZeros : Prop :=
  ∀ b ∈ B.branches, ∀ k x y, B.vals.lookup k = some (.float x) → b.2.lookup k = some (.float y) →
    floatIsZero x = true → floatIsZero y = true → x = y

/-- No branch changes a NaN of the split. -/
def KeepsNaNs : Prop :=
  ∀ b ∈ B.branches, ∀ k x, B.vals.lookup k = some (.float x) → floatIsNaN x = true →
    b.2.lookup k = some (.float x)

variable {B}

theorem not_incomparable {x y : Value} (hx : x.IsScalar) : ¬ x.Incomparable y := by
  cases x <;> first | exact hx.elim | exact id

variable {b : Bytes × GoMap Value} {x : Value}

/-- Scalars are merged over any split but the nil map. -/
theorem Writable.not_rejects (h : B.Writable) (hb : b ∈ B.branches) (hx : b.2.lookup k = some x) :
    ¬ B.base.Rejects k x := by
  intro hrejects
  cases hbase : B.base with
  | none => cases (h hbase b hb k).symm.trans hx
  | some base =>
    rw [hbase] at hrejects
    obtain ⟨bv, hbv, hinc⟩ := hrejects
    exact not_incomparable (B.scalar_split k bv (by rwa [hbase])) hinc

variable {order : List (Bytes × GoMap Value)}

/-- The merge in one order: what is written last, over the variables of the split. -/
theorem exists_merged (hround : B.RoundTrips) (hwritable : B.Writable)
    (horder : order.Perm B.branches) (gw : Gateway) (hgw : gw.vars = B.split :: order.map Prod.fst)
    :
    ∃ merged m', lib.mergeGatewayVars gw = some (.ok merged) ∧ lib.readVars merged = .ok m' ∧
      ∀ k, m'.lookup k = (lastWritten B.vals (order.map Prod.snd) k).or (B.vals.lookup k) := by
  obtain ⟨ret, hmerge, hlookup⟩ := @Lib.mergeBranches_of_reads B.base B.base lib 1 order rfl
    (fun b hb => B.reads b (horder.mem_iff.1 hb))
    (fun b hb k x hx => hwritable.not_rejects (horder.mem_iff.1 hb) hx)
  have hmade : B.Made (ret.getD ∅) := by
    intro k x hx
    rw [hlookup, Option.or_eq_some_iff] at hx
    rcases hx with hx | ⟨-, hx⟩
    · obtain ⟨v, hv, hwritten⟩ := exists_of_lastWritten hx
      obtain ⟨b, hb, rfl⟩ := mem_map.1 hv
      rw [written?, Option.filter_eq_some_iff] at hwritten
      exact .inr ⟨b, horder.mem_iff.1 hb, hwritten.1⟩
    · exact .inl hx
  obtain ⟨merged, hencode, hdecode⟩ := hround ret hmade
  refine ⟨merged, ret.getD ∅, ?_, hdecode, hlookup⟩
  -- there is at least one branch, so the variables of the split are not returned as they are
  cases order with
  | nil => exact absurd horder.nil_eq.symm B.ne_nil
  | cons b order =>
    rw [Lib.mergeGatewayVars, hgw, map_cons]
    dsimp only
    rw [B.decodes_split]
    dsimp only
    rw [← map_cons, hmerge]
    dsimp only
    rw [hencode]

instance (base : GoMap Value) : Std.Symm fun b b' : Bytes × GoMap Value =>
    ∀ k, ¬ (Changes base b.2 k ∧ Changes base b'.2 k) := ⟨fun _ _ h k hk => h k hk.symm⟩

/-- Two different branches do not both change a variable. -/
theorem eq_of_changes {b b' : Bytes × GoMap Value} (hb : b ∈ B.branches) (hb' : b' ∈ B.branches)
    (hchanges : Changes B.vals b.2 k) (hchanges' : Changes B.vals b'.2 k) :
    b = b' := by
  by_contra hne
  exact B.once.forall hb hb' hne k ⟨hchanges, hchanges'⟩

/-- A branch writes what it changes, if the signs of zeros are kept. -/
theorem written_of_changes (hzeros : B.KeepsZeros) (hb : b ∈ B.branches)
    (hx : b.2.lookup k = some x) (hne : B.vals.lookup k ≠ some x) :
    written? B.vals b.2 k = some x := by
  rw [written?, hx, Option.filter_eq_some_iff]
  refine ⟨rfl, ?_⟩
  rw [writes]
  cases hbase : B.vals.lookup k with
  | none => simp [Lib.differs?, hbase]
  | some bv =>
    have hscalar := B.scalar_split k bv hbase
    simp only [Lib.differs?, hbase]
    cases hcompare : bv.ne? x with
    | none => exact absurd ((Value.ne?_eq_none_iff bv x).1 hcompare) (not_incomparable hscalar)
    | some differs =>
      cases differs with
      | true => rfl
      | false =>
        rcases (Value.ne?_eq_some_false_iff hscalar).1 hcompare with ⟨rfl, -⟩ |
          ⟨a, c, rfl, rfl, ha, hc, -⟩
        · exact absurd hbase hne
        · obtain rfl := hzeros b hb k a c hbase hx ha hc
          exact absurd hbase hne

/-- A branch that has not changed a variable writes it only if it is a NaN, or the split has
none. -/
theorem nan_of_written {v : GoMap Value} (hscalar : x.IsScalar)
    (hwritten : written? B.vals v k = some x) (hbase : B.vals.lookup k = some x) :
    ∃ a, x = .float a ∧ floatIsNaN a = true := by
  rw [written?, Option.filter_eq_some_iff, writes, Lib.differs?, hbase] at hwritten
  obtain ⟨-, hdiffers⟩ := hwritten
  by_contra hnan
  simp only [not_exists, not_and, Bool.not_eq_true] at hnan
  have hsame : x.ne? x = some false := (Value.ne?_eq_some_false_iff hscalar).2 (.inl ⟨rfl, hnan⟩)
  simp [hsame] at hdiffers

/-- What is written last is the change of the one branch that has changed the variable. -/
theorem lookup_of_changes (hzeros : B.KeepsZeros) (hnans : B.branches.length = 1 ∨ B.KeepsNaNs)
    (horder : order.Perm B.branches) (hb : b ∈ B.branches) (hchanges : Changes B.vals b.2 k) :
    (lastWritten B.vals (order.map Prod.snd) k).or (B.vals.lookup k) = b.2.lookup k := by
  obtain ⟨x, hx, hne⟩ := hchanges
  have hwritten := written_of_changes hzeros hb hx hne
  cases hlast : lastWritten B.vals (order.map Prod.snd) k with
  | none =>
    have hnone := lastWritten_eq_none_iff.1 hlast b.2 (mem_map_of_mem (horder.mem_iff.2 hb))
    cases hnone.symm.trans hwritten
  | some y =>
    obtain ⟨v, hv, hwritten'⟩ := exists_of_lastWritten hlast
    obtain ⟨b', hb', rfl⟩ := mem_map.1 hv
    have hb' := horder.mem_iff.1 hb'
    have hy := (Option.filter_eq_some_iff.1 hwritten').1
    have hsame : b = b' := by
      by_cases hchanges' : Changes B.vals b'.2 k
      · exact eq_of_changes hb hb' ⟨x, hx, hne⟩ hchanges'
      -- otherwise the other branch has written a NaN that it has not changed
      have hbase : B.vals.lookup k = some y := by
        by_contra hne'
        exact hchanges' ⟨y, hy, hne'⟩
      obtain ⟨a, rfl, hnan⟩ := nan_of_written (B.scalar_split k y hbase) hwritten' hbase
      rcases hnans with hone | hnans
      · obtain ⟨c, hc⟩ := length_eq_one_iff.1 hone
        rw [hc, mem_singleton] at hb hb'
        rw [hb, hb']
      · have hkept := hnans b hb k a hbase hnan
        rw [hx] at hkept
        exact absurd (hkept ▸ hbase) hne
    subst hsame
    rw [hx, Option.some_or, ← hy, hx]

/-- A variable that no branch has changed stays as it is. -/
theorem lookup_of_not_changes (horder : order.Perm B.branches)
    (hkept : ∀ b ∈ B.branches, ¬ Changes B.vals b.2 k) :
    (lastWritten B.vals (order.map Prod.snd) k).or (B.vals.lookup k) = B.vals.lookup k := by
  cases hlast : lastWritten B.vals (order.map Prod.snd) k with
  | none => rfl
  | some y =>
    obtain ⟨v, hv, hwritten⟩ := exists_of_lastWritten hlast
    obtain ⟨b, hb, rfl⟩ := mem_map.1 hv
    by_contra hne
    refine hkept b (horder.mem_iff.1 hb) ⟨y, (Option.filter_eq_some_iff.1 hwritten).1, ?_⟩
    exact fun hbase => hne hbase.symm

/-- A variable cannot be written over the nil map. -/
theorem writable_of_mergesAlike (h : B.MergesAlike) : B.Writable := by
  intro hbase b hb k
  by_contra hne
  obtain ⟨x, hx⟩ := Option.ne_none_iff_exists'.1 hne
  obtain ⟨m, -, horders⟩ := h
  obtain ⟨merged, m', hmerge, -⟩ := horders _ (List.Perm.refl B.branches) ⟨∅, _, 0⟩ rfl
  obtain ⟨pre, post, hsplit⟩ := append_of_mem hb
  have hreturns := (merge_returns_iff lib ⟨∅, _, 0⟩).1 (by rw [hmerge]; exact nofun)
  refine hreturns.2 ⟨B.split, B.base, pre.map Prod.fst, b.1, post.map Prod.fst, b.2, ?_,
    B.decodes_split, ?_, B.reads b hb, k, x, hx, ?_⟩
  · rw [hsplit, map_append, map_cons]
  · intro c hc
    obtain ⟨b', hb', rfl⟩ := mem_map.1 hc
    exact ⟨b'.2, B.reads b' (hsplit ▸ mem_append_left _ hb')⟩
  · rw [hbase]
    trivial

/-- In whichever order the branches have arrived, a change is what is written last. -/
theorem MergesAlike.lookup (h : B.MergesAlike) (hround : B.RoundTrips)
    (horder : order.Perm B.branches) (hb : b ∈ B.branches) (hchanges : Changes B.vals b.2 k) :
    (lastWritten B.vals (order.map Prod.snd) k).or (B.vals.lookup k) = b.2.lookup k := by
  obtain ⟨merged, m', hmerge, hdecode, hlookup⟩ :=
    exists_merged hround (writable_of_mergesAlike h) horder ⟨∅, _, 0⟩ rfl
  obtain ⟨m, hupdated, horders⟩ := h
  obtain ⟨merged', m'', hmerge', hdecode', hsame⟩ := horders _ horder ⟨∅, _, 0⟩ rfl
  cases hmerge.symm.trans hmerge'
  cases hdecode.symm.trans hdecode'
  rw [← hlookup, hsame, (hupdated k).1 b hb hchanges]

/-- The sign of a zero is lost: nobody writes the variable. -/
theorem keepsZeros_of_mergesAlike (hround : B.RoundTrips) (h : B.MergesAlike) : B.KeepsZeros := by
  intro b hb k x y hbase hy hx0 hy0
  by_contra hne
  have hchanges : Changes B.vals b.2 k := ⟨.float y, hy, by rw [hbase]; simpa using hne⟩
  have hsilent : lastWritten B.vals (B.branches.map Prod.snd) k = none := by
    refine lastWritten_eq_none_iff.2 fun v hv => ?_
    obtain ⟨b', hb', rfl⟩ := mem_map.1 hv
    rw [written?, Option.filter_eq_none_iff]
    intro z hz
    -- the value of the branch is another zero, or the one of the split
    have hzero : ∃ c, z = .float c ∧ floatIsZero c = true := by
      by_cases hbb : b = b'
      · subst hbb
        exact ⟨y, Option.mem_unique hz hy, hy0⟩
      · by_cases hz' : B.vals.lookup k = some z
        · exact ⟨x, Option.mem_unique hz' hbase, hx0⟩
        · exact absurd (eq_of_changes hb hb' hchanges ⟨z, hz, hz'⟩) hbb
    obtain ⟨c, rfl, hc0⟩ := hzero
    have hequal : (Value.float x).ne? (.float c) = some false :=
      (@Value.ne?_eq_some_false_iff (.float x) _ trivial).2 (.inr ⟨x, c, rfl, rfl, hx0, hc0,
        floatIsNaN_of_floatIsZero hx0, floatIsNaN_of_floatIsZero hc0⟩)
    simp [writes, Lib.differs?, hbase, hequal]
  have hlost := h.lookup hround (.refl _) hb hchanges
  rw [hsilent, Option.none_or, hbase, hy] at hlost
  exact hne (by simpa using hlost)

/-- The change of a NaN is lost to a branch that comes later. -/
theorem keepsNaNs_of_mergesAlike (hround : B.RoundTrips) (h : B.MergesAlike)
    (hmany : B.branches.length ≠ 1) : B.KeepsNaNs := by
  intro b hb k x hbase hnan
  by_contra hne
  obtain ⟨y, hy⟩ := B.keeps b hb k _ hbase
  have hchanges : Changes B.vals b.2 k := ⟨y, hy, fun hsame => hne (hy.trans (hbase ▸ hsame).symm)⟩
  -- the branches in an order in which another one comes last
  obtain ⟨before, after, hsplit⟩ := append_of_mem hb
  have hperm : (b :: (before ++ after)).Perm B.branches := hsplit ▸ perm_middle.symm
  have hothers : before ++ after ≠ [] := by
    intro hnil
    rw [hnil] at hperm
    exact hmany hperm.length_eq.symm
  obtain ⟨init, c, hlast⟩ := (eq_nil_or_concat (before ++ after)).resolve_left hothers
  rw [hlast, concat_eq_append, ← cons_append] at hperm
  have hc : c ∈ B.branches := hperm.mem_iff.1 (by simp)
  have hkept : c.2.lookup k = some (.float x) := by
    have honce : ((b :: init) ++ [c]).Pairwise _ :=
      hperm.symm.pairwise B.once fun h k hk => h k hk.symm
    have hbc :=
      (pairwise_append.1 honce).2.2 b mem_cons_self c (mem_singleton_self c)
    obtain ⟨z, hz⟩ := B.keeps c hc k _ hbase
    by_contra hne'
    refine hbc k ⟨hchanges, z, hz, fun hsame => hne' (hz.trans (hbase ▸ hsame).symm)⟩
  have hwritten : written? B.vals c.2 k = some (.float x) := by
    rw [written?, Option.filter_eq_some_iff]
    refine ⟨hkept, ?_⟩
    simp [writes, Lib.differs?, hbase, Value.ne?, hnan]
  have hlost := h.lookup hround hperm hb hchanges
  rw [map_append, map_singleton, lastWritten_concat, hwritten, Option.some_or] at hlost
  exact hne hlost.symm

end MergeInput

/-- **The order of the branches does not matter**, and the merge has all changes, exactly when
nothing is written over the nil map, no branch changes the sign of a zero and no branch of several
changes a NaN. -/
theorem merge_ordered_iff (lib : Lib) (B : MergeInput lib) (hround : B.RoundTrips) :
    B.MergesAlike ↔ B.Writable ∧ B.KeepsZeros ∧ (B.branches.length = 1 ∨ B.KeepsNaNs) := by
  constructor
  · intro h
    refine ⟨MergeInput.writable_of_mergesAlike h, MergeInput.keepsZeros_of_mergesAlike hround h, ?_⟩
    by_cases hone : B.branches.length = 1
    · exact .inl hone
    · exact .inr (MergeInput.keepsNaNs_of_mergesAlike hround h hone)
  · rintro ⟨hwritable, hzeros, hnans⟩
    obtain ⟨merged, m, -, -, hm⟩ :=
      MergeInput.exists_merged hround hwritable (List.Perm.refl B.branches) ⟨∅, _, 0⟩ rfl
    have hupdated : B.Updated m := fun k => by
      refine ⟨fun b hb hchanges => ?_, fun hkept => ?_⟩
      · rw [hm, MergeInput.lookup_of_changes hzeros hnans (List.Perm.refl _) hb hchanges]
      · rw [hm, MergeInput.lookup_of_not_changes (List.Perm.refl _) hkept]
    refine ⟨m, hupdated, fun order horder gw hgw => ?_⟩
    obtain ⟨merged', m', hmerge, hdecode, hm'⟩ :=
      MergeInput.exists_merged hround hwritable horder gw hgw
    refine ⟨merged', m', hmerge, hdecode, fun k => ?_⟩
    rw [hm']
    by_cases hchanged : ∃ b ∈ B.branches, Changes B.vals b.2 k
    · obtain ⟨b, hb, hchanges⟩ := hchanged
      rw [MergeInput.lookup_of_changes hzeros hnans horder hb hchanges,
        (hupdated k).1 b hb hchanges]
    · have hkept : ∀ b ∈ B.branches, ¬ Changes B.vals b.2 k := by
        simpa using hchanged
      rw [MergeInput.lookup_of_not_changes horder hkept, (hupdated k).2 hkept]

/-! ### One number -/

/-- The encoding of the variables with the one number `x`, given by its bits. -/
def numberVars (bits : UInt64) : Bytes :=
  0x81 :: 0xa1 :: 0x78 :: 0xcb ::
    ([56, 48, 40, 32, 24, 16, 8, 0] : List UInt64).map fun i => (bits >>> i).toUInt8

/-- The libraries, for variables of which there is the one number `x`, or none, and for the code of
nil. -/
def numberLib : Lib where
  unmarshal
    | [0x81, 0xa1, 0x78, 0xcb, b₇, b₆, b₅, b₄, b₃, b₂, b₁, b₀] =>
      .ok (some (AList.singleton "x" (.float ([b₇, b₆, b₅, b₄, b₃, b₂, b₁, b₀].foldl
        (fun bits b => bits <<< 8 ||| b.toUInt64) 0))))
    | [0x80] => .ok (some ∅)
    | [0xc0] => .ok none
    | _ => .error (.text "msgpack: unexpected code")
  marshal vars :=
    match vars with
    | none => .ok [0xc0]
    | some vals =>
      match vals.lookup "x" with
      | some (.float bits) => .ok (numberVars bits)
      | _ => .ok [0x80]
  eval _ _ := .value .nil
  getVariables _ := .ok []
  atoi _ := none
  shift _ t := .ok t
  format _ := ""

/-- The variables with the number `x`. -/
def numberVals (bits : UInt64) : GoMap Value := AList.singleton "x" (.float bits)

theorem lookup_numberVals {bits : UInt64} {v : Value} (h : (numberVals bits).lookup k = some v) :
    k = "x" ∧ v = .float bits := by
  have hmem := mem_lookup_iff.1 h
  simpa [numberVals, singleton_entries] using hmem

theorem isScalar_numberVals {bits : UInt64} (k : String) (x : Value)
    (h : (numberVals bits).lookup k = some x) : x.IsScalar := by
  obtain ⟨-, rfl⟩ := lookup_numberVals h
  trivial

/-- The number of the split is `before`, and the first of two branches has set it to `after`. -/
def numberInput (before after : UInt64)
    (hbefore : numberLib.decode (numberVars before) = .ok (some (numberVals before)))
    (hafter : numberLib.decode (numberVars after) = .ok (some (numberVals after))) :
    MergeInput numberLib where
  split := numberVars before
  base := some (numberVals before)
  branches := [(numberVars after, numberVals after), (numberVars before, numberVals before)]
  decodes_split := hbefore
  reads := by simp [Lib.readVars, hbefore, hafter, Except.map]
  ne_nil := nofun
  scalar_split := isScalar_numberVals
  scalar := List.forall_mem_cons.2 ⟨isScalar_numberVals, List.forall_mem_singleton.2
    isScalar_numberVals⟩
  keeps := by
    simp only [List.forall_mem_cons, List.not_mem_nil, false_imp_iff, implies_true, and_true]
    refine ⟨fun k x h => ?_, fun k x h => ⟨x, h⟩⟩
    obtain ⟨rfl, -⟩ := lookup_numberVals h
    exact ⟨.float after, rfl⟩
  once := by
    simp only [List.pairwise_cons, List.mem_singleton, forall_eq, List.not_mem_nil, false_imp_iff,
      implies_true, List.Pairwise.nil, and_true]
    rintro k ⟨-, x, hx, hne⟩
    exact hne hx

theorem eq_of_only_x {vals : GoMap Value} (h : ∀ k v, vals.lookup k = some v → k = "x") :
    vals = ∅ ∨ ∃ v, vals = AList.singleton "x" v := by
  have hkeys : ∀ e ∈ vals.entries, e.1 = "x" := fun e he => h e.1 e.2 (mem_lookup_iff.2 he)
  obtain ⟨entries, hnodup⟩ := vals
  match entries, hnodup, hkeys with
  | [], _, _ => exact .inl rfl
  | [⟨k, v⟩], _, hkeys =>
    obtain rfl : k = "x" := hkeys ⟨k, v⟩ mem_cons_self
    exact .inr ⟨v, rfl⟩
  | ⟨k, v⟩ :: ⟨k', v'⟩ :: rest, hnodup, hkeys =>
    obtain rfl : k = "x" := hkeys ⟨k, v⟩ mem_cons_self
    obtain rfl : k' = "x" := hkeys ⟨k', v'⟩ (mem_cons_of_mem _ mem_cons_self)
    simp [nodupKeys_cons] at hnodup

theorem roundTrips_numberInput (before after : UInt64)
    (hbefore : numberLib.decode (numberVars before) = .ok (some (numberVals before)))
    (hafter : numberLib.decode (numberVars after) = .ok (some (numberVals after))) :
    (numberInput before after hbefore hafter).RoundTrips := by
  rintro (_ | vals) hmade
  · exact ⟨[0xc0], rfl, rfl⟩
  have hvals : ∀ k v, vals.lookup k = some v →
      k = "x" ∧ (v = .float before ∨ v = .float after) := by
    intro k v hv
    rcases hmade k v hv with hbase | ⟨b, hb, hbv⟩
    · exact (lookup_numberVals hbase).imp_right .inl
    · simp only [numberInput, mem_cons, not_mem_nil, or_false] at hb
      rcases hb with rfl | rfl
      · exact (lookup_numberVals hbv).imp_right .inr
      · exact (lookup_numberVals hbv).imp_right .inl
  rcases eq_of_only_x fun k v hv => (hvals k v hv).1 with rfl | ⟨v, rfl⟩
  · exact ⟨[0x80], rfl, rfl⟩
  · rcases (hvals "x" v rfl).2 with rfl | rfl
    · exact ⟨numberVars before, rfl, by rw [Lib.readVars, hbefore]; rfl⟩
    · exact ⟨numberVars after, rfl, by rw [Lib.readVars, hafter]; rfl⟩

/-- One branch sets a number from 1 to 2. -/
theorem merge_ordered_iff_number :
    (numberInput 0x3ff0000000000000 0x4000000000000000 rfl rfl).MergesAlike := by
  refine (merge_ordered_iff numberLib _ (roundTrips_numberInput _ _ rfl rfl)).2 ⟨nofun, ?_, .inr ?_⟩
  · rintro b - k x y hbase - hx0 -
    obtain ⟨-, ⟨⟩⟩ := lookup_numberVals hbase
    exact absurd hx0 (by decide)
  · rintro b - k x hbase hnan
    obtain ⟨-, ⟨⟩⟩ := lookup_numberVals hbase
    exact absurd hnan (by decide)

/-- The number of the split is a NaN, and the first of two branches has set it to 1. -/
def nanInput : MergeInput numberLib := numberInput 0x7ff8000000000001 0x3ff0000000000000 rfl rfl

/-- **A change that is lost.** One branch sets a NaN to 1 and the other leaves it alone: if the one
that has done nothing arrives last, the number is a NaN again. -/
theorem merge_loses_change :
    numberLib.mergeGatewayVars { vars := nanInput.split :: nanInput.branches.map Prod.fst } =
      some (.ok (numberVars 0x7ff8000000000001)) ∧
    numberLib.mergeGatewayVars
        { vars := nanInput.split :: nanInput.branches.reverse.map Prod.fst } =
      some (.ok (numberVars 0x3ff0000000000000)) ∧
    ¬ nanInput.MergesAlike := by
  refine ⟨rfl, rfl, fun h => ?_⟩
  obtain ⟨m, -, horders⟩ := h
  obtain ⟨merged, m', hmerge, hdecode, hthere⟩ :=
    horders nanInput.branches (List.Perm.refl _) ⟨∅, _, 0⟩ rfl
  obtain ⟨merged', m'', hmerge', hdecode', hback⟩ :=
    horders nanInput.branches.reverse (List.reverse_perm _) ⟨∅, _, 0⟩ rfl
  cases hmerge
  cases hmerge'
  have hfirst : numberLib.readVars (numberVars 0x7ff8000000000001) =
    .ok (numberVals 0x7ff8000000000001) := rfl
  have hsecond : numberLib.readVars (numberVars 0x3ff0000000000000) =
    .ok (numberVals 0x3ff0000000000000) := rfl
  cases hfirst.symm.trans hdecode
  cases hsecond.symm.trans hdecode'
  have hsame : some (Value.float 0x7ff8000000000001) = some (Value.float 0x3ff0000000000000) :=
    (hthere "x").trans (hback "x").symm
  simp at hsame

end SharWorkflow
