import SharWorkflow.Model.Vars

/-!
# The buffer of a transform

`OutputVars` and `InputVars` (`server/vars/vars.go`) range over a transform, which is a Go map, and
assign a buffer of their caller when all of it has been evaluated. Here the buffer is explicit, and
the order of the map is any order. A buffer may hold the code of nil: it is read as a nil map, into
which nothing can be written.

* `Lib.runOutputVars`, `Lib.runInputVars`: how a call ends and what is in the buffer then.
* `Lib.Replaces`: a set of variables with the keys of a transform replaced, and no others.
* `Lib.Writable`: no order of the map comes to an assignment to the nil map.
* `transforms_exact`: what the calls leave behind, in every order of the map, exactly if the old
  variables are writable.
* `nil_buffer_panics`: a call that ends in a panic.
-/

namespace SharWorkflow

open List AList

/-- Two sets have the same variables, and both are nil maps or neither is. -/
def SameVars (vars vars' : Vars) : Prop :=
  (vars = none ↔ vars' = none) ∧ ∀ key, (vars.getD ∅).lookup key = (vars'.getD ∅).lookup key

theorem SameVars.refl (vars : Vars) : SameVars vars vars := ⟨Iff.rfl, fun _ => rfl⟩

theorem SameVars.symm {vars vars' : Vars} (h : SameVars vars vars') : SameVars vars' vars :=
  ⟨h.1.symm, fun key => (h.2 key).symm⟩

theorem SameVars.trans {vars vars' vars'' : Vars} (h : SameVars vars vars')
    (h' : SameVars vars' vars'') : SameVars vars vars'' :=
  ⟨h.1.trans h'.1, fun key => (h.2 key).trans (h'.2 key)⟩

/-- The order that comes to a key first. -/
def MapOrder.first (key : String) : MapOrder :=
  ⟨fun m => m.entries.filter (fun e => e.1 = key) ++ m.entries.filter (fun e => ¬ e.1 = key),
    fun m => by simpa using filter_append_perm (fun e => decide (e.1 = key)) m.entries⟩

theorem MapOrder.entries_first {β : Type} {m : GoMap β} {e : Sigma fun _ : String => β}
    (he : e ∈ m.entries) : ∃ rest, (MapOrder.first e.1).entries m = e :: rest := by
  have hmem : e ∈ m.entries.filter (fun e' => e'.1 = e.1) := mem_filter.2 ⟨he, by simp⟩
  obtain ⟨e', rest, hfilter⟩ := exists_cons_of_ne_nil (ne_nil_of_mem hmem)
  obtain ⟨he', hkey⟩ := mem_filter.1 (hfilter ▸ mem_cons_self : e' ∈ _)
  obtain rfl : e' = e := m.nodupKeys.eq_of_fst_eq he' he (by simpa using hkey)
  exact ⟨_, congrArg (· ++ _) hfilter⟩

namespace Lib

variable (lib : Lib)

/-- A buffer is assigned the bytes of a call that succeeds. `none` is a panic. -/
def assign : Option (Except Err Bytes) → Bytes → Option (Except Err Unit) × Bytes
  | none, buffer => (none, buffer)
  | some (.error e), buffer => (some (.error e), buffer)
  | some (.ok b), _ => (some (.ok ()), b)

/-- `InputVars`: how it ends, and the buffer `*newVarsBin` after it. -/
def runInputVars (order : MapOrder) (oldVarsBin : Bytes) (transform : Option (GoMap String))
    (newVarsBin : Bytes) : Option (Except Err Unit) × Bytes :=
  assign (some (lib.inputVars order oldVarsBin newVarsBin transform)) newVarsBin

/-- `OutputVars`: how it ends, and the buffer `*mergeVarsBin` after it. In the aliased call of
`timedExecuteProcessor` both buffers are the same bytes. -/
def runOutputVars (order : MapOrder) (newVarsBin : Bytes) (transform : Option (GoMap String))
    (mergeVarsBin : Bytes) : Option (Except Err Unit) × Bytes :=
  assign (lib.outputVars order newVarsBin mergeVarsBin transform) mergeVarsBin

/-! ### Sets of variables -/

/-- A buffer is read as a set of variables. -/
def Reads (b : Bytes) (vars : Vars) : Prop :=
  ∃ vars', lib.decode b = .ok vars' ∧ SameVars vars' vars

/-- What is encoded is read as it was. Whether a set of variables can be encoded does not depend on
how the map lies in memory. -/
structure RoundTrips : Prop where
  reads : ∀ {vars b}, lib.encode vars = .ok b → lib.Reads b vars
  encodes : ∀ {vars vars' b}, SameVars vars vars' → lib.encode vars = .ok b →
    ∃ b', lib.encode vars' = .ok b'

/-- An expression has one value over a set of variables. -/
def Deterministic : Prop :=
  ∀ (exp : String) {vals vals' : GoMap Value}, (∀ key, vals.lookup key = vals'.lookup key) →
    lib.eval exp vals = lib.eval exp vals'

/-- `vars` is `o`, with the keys of the transform replaced by its expressions over `n`. -/
def Replaces (transform : GoMap String) (n o vars : Vars) : Prop :=
  (vars = none ↔ o = none) ∧ ∀ key,
    match transform.lookup key with
    | none => (vars.getD ∅).lookup key = (o.getD ∅).lookup key
    | some exp => ∃ v, lib.evalAny exp (n.getD ∅) = .ok v ∧ (vars.getD ∅).lookup key = some v

/-- The old variables are not the nil map, unless there is no value to be written into it. -/
def Writable (transform : GoMap String) (n o : Vars) : Prop :=
  o = none → ∀ e ∈ transform.entries, ∀ v, lib.evalAny e.2 (n.getD ∅) ≠ .ok v

variable {lib} {transform : GoMap String} {n n' o o' vars vars' : Vars}
  {vals acc acc' : GoMap Value}
  {entries : List (Sigma fun _ : String => String)} {text evalText encodeText : String}
  {order order' : MapOrder} {new old b : Bytes}

theorem Deterministic.evalAny (h : lib.Deterministic) (exp : String) (hvars : SameVars vars vars') :
    lib.evalAny exp (vars.getD ∅) = lib.evalAny exp (vars'.getD ∅) := by
  rw [Lib.evalAny, Lib.evalAny, h exp hvars.2]

/-- The variables that replace others depend on the sets only. -/
theorem Replaces.congr (h : lib.Replaces transform n o vars) (hdet : lib.Deterministic)
    (hn : SameVars n n') (ho : SameVars o o') (hvars : SameVars vars vars') :
    lib.Replaces transform n' o' vars' := by
  refine ⟨hvars.1.symm.trans (h.1.trans ho.1), fun key => ?_⟩
  have hkey := h.2 key
  rw [← hvars.2 key, ← ho.2 key]
  split at hkey
  · exact hkey
  · obtain ⟨v, heval, hv⟩ := hkey
    exact ⟨v, by rw [← hdet.evalAny _ hn, heval], hv⟩

/-- There is one set with the keys replaced. -/
theorem Replaces.sameVars (h : lib.Replaces transform n o vars)
    (h' : lib.Replaces transform n o vars') : SameVars vars vars' := by
  refine ⟨h.1.trans h'.1.symm, fun key => ?_⟩
  have hkey := h.2 key
  have hkey' := h'.2 key
  cases hlookup : transform.lookup key with
  | none =>
    rw [hlookup] at hkey hkey'
    exact hkey.trans hkey'.symm
  | some exp =>
    rw [hlookup] at hkey hkey'
    obtain ⟨v, heval, hv⟩ := hkey
    obtain ⟨v', heval', hv'⟩ := hkey'
    rw [hv, hv', Except.ok.inj (heval.symm.trans heval')]

theorem Writable.congr (h : lib.Writable transform n o) (hdet : lib.Deterministic)
    (hn : SameVars n n') (ho : SameVars o o') : lib.Writable transform n' o' := by
  intro ho' e he v
  rw [← hdet.evalAny _ hn]
  exact h (ho.1.2 ho') e he v

/-! ### The loop -/

/-- The loop ends normally when every expression has a value. -/
theorem exists_evalTransform_iff : (∃ acc', lib.evalTransform text vals entries acc = .ok acc') ↔
      ∀ e ∈ entries, ∃ v, lib.evalAny e.2 vals = .ok v := by
  induction entries generalizing acc with
  | nil => exact iff_of_true ⟨acc, rfl⟩ (by simp)
  | cons e entries ih =>
    rw [forall_mem_cons, evalTransform]
    cases heval : lib.evalAny e.2 vals with
    | error err => simp
    | ok v => simp [ih]

/-- A key that the transform has no entry for keeps its value. -/
theorem evalTransform_lookup_of_notMem {key : String}
    (hkey : key ∉ entries.keys) (h : lib.evalTransform text vals entries acc = .ok acc') :
    acc'.lookup key = acc.lookup key := by
  induction entries generalizing acc with
  | nil =>
    cases h
    rfl
  | cons e entries ih =>
    rw [keys_cons, mem_cons, not_or] at hkey
    rw [Lib.evalTransform] at h
    split at h
    · cases h
    · rw [ih hkey.2 h, lookup_insert_ne hkey.1]

/-- The value of an expression is under its key. -/
theorem evalTransform_lookup {key exp : String} {v : Value}
    (hnodup : entries.NodupKeys) (hlookup : entries.dlookup key = some exp)
    (heval : lib.evalAny exp vals = .ok v)
    (h : lib.evalTransform text vals entries acc = .ok acc') : acc'.lookup key = some v := by
  induction entries generalizing acc with
  | nil => cases hlookup
  | cons e entries ih =>
    obtain ⟨k, exp'⟩ := e
    rw [nodupKeys_cons] at hnodup
    rw [Lib.evalTransform] at h
    by_cases hk : key = k
    · subst hk
      rw [dlookup_cons_eq] at hlookup
      cases hlookup
      rw [heval] at h
      rw [evalTransform_lookup_of_notMem hnodup.1 h, lookup_insert]
    · rw [dlookup_cons_ne _ _ hk] at hlookup
      split at h
      · cases h
      · exact ih hnodup.2 hlookup h

/-- **What the loop writes**, in whatever order it comes to the entries of the transform. -/
theorem evalTransform_replaces (hperm : entries.Perm transform.entries)
    (h : lib.evalTransform text (n.getD ∅) entries acc = .ok acc') :
    lib.Replaces transform n (some acc) (some acc') := by
  have hnodup : entries.NodupKeys := (perm_nodupKeys hperm).2 transform.nodupKeys
  refine ⟨by simp, fun key => ?_⟩
  have hlookup : entries.dlookup key = transform.lookup key := perm_dlookup key hnodup hperm
  split
  · rename_i hnone
    rw [hnone] at hlookup
    exact evalTransform_lookup_of_notMem (dlookup_eq_none.1 hlookup) h
  · rename_i exp hsome
    rw [hsome] at hlookup
    obtain ⟨v, heval⟩ := exists_evalTransform_iff.1 ⟨acc', h⟩ _ (of_mem_dlookup hlookup)
    exact ⟨v, heval, evalTransform_lookup hnodup hlookup heval h⟩

/-- What the loop has written over a decoded set. Into a nil map it writes nothing. -/
theorem writeTransform_replaces (hperm : entries.Perm transform.entries)
    (h : lib.writeTransform text (n.getD ∅) entries o = some (.ok vars)) :
    lib.Replaces transform n o vars := by
  cases o with
  | some acc =>
    rw [writeTransform] at h
    cases heval : lib.evalTransform text (n.getD ∅) entries acc with
    | error e => simp [heval, Except.map] at h
    | ok acc' =>
      obtain rfl : some acc' = vars := by simpa [heval, Except.map] using h
      exact evalTransform_replaces hperm heval
  | none =>
    cases entries with
    | cons e entries =>
      rw [writeTransform] at h
      split at h <;> simp at h
    | nil =>
      obtain rfl : none = vars := by simpa [writeTransform] using h
      refine ⟨Iff.rfl, fun key => ?_⟩
      have hnone : transform.lookup key = none := by
        rw [AList.lookup, hperm.nil_eq.symm, dlookup_nil]
      rw [hnone]

/-- A set with the keys replaced is there when the loop ends normally. -/
theorem Replaces.exists_writeTransform (h : lib.Replaces transform n o vars)
    (hperm : entries.Perm transform.entries) :
    ∃ vars', lib.writeTransform text (n.getD ∅) entries o = some (.ok vars') := by
  have hvalue : ∀ e ∈ entries, ∃ v, lib.evalAny e.2 (n.getD ∅) = .ok v ∧
      (vars.getD ∅).lookup e.1 = some v := by
    intro e he
    have hkey := h.2 e.1
    rwa [mem_lookup_iff.2 (hperm.mem_iff.1 he)] at hkey
  cases o with
  | some acc =>
    obtain ⟨acc', hacc⟩ := exists_evalTransform_iff.2 fun e he => (hvalue e he).imp fun _ hv => hv.1
    exact ⟨some acc', by rw [writeTransform, hacc]; rfl⟩
  | none =>
    cases entries with
    | nil => exact ⟨none, rfl⟩
    | cons e entries =>
      obtain ⟨v, -, hlookup⟩ := hvalue e mem_cons_self
      rw [h.1.2 rfl] at hlookup
      cases hlookup

theorem Writable.writeTransform_ne_none (h : lib.Writable transform n o)
    (hperm : entries.Perm transform.entries) :
    lib.writeTransform text (n.getD ∅) entries o ≠ none := by
  cases o with
  | some acc => simp [writeTransform]
  | none =>
    cases entries with
    | nil => simp [writeTransform]
    | cons e entries =>
      rw [writeTransform]
      cases heval : lib.evalAny e.2 (n.getD ∅) with
      | error err => simp
      | ok v => exact absurd heval (h rfl e (hperm.mem_iff.1 mem_cons_self) v)

/-! ### The bytes -/

/-- The bytes encode a set with the keys replaced. There are none when no such set can be
encoded. -/
def Encodes (lib : Lib) (transform : GoMap String) (n o : Vars)
    (bytes : Option (Except Err Bytes)) : Prop :=
  (∃ vars b, bytes = some (.ok b) ∧ lib.Replaces transform n o vars ∧ lib.encode vars = .ok b) ∨
    ((∃ e, bytes = some (.error e)) ∧
      ∀ vars b, lib.Replaces transform n o vars → lib.encode vars ≠ .ok b)

theorem encodes_encodeTransform (hlib : lib.RoundTrips) (hperm : entries.Perm transform.entries)
    (hwritable : lib.Writable transform n o) : lib.Encodes transform n o
      (lib.encodeTransform evalText encodeText (n.getD ∅) entries o) := by
  rw [encodeTransform]
  cases hloop : lib.writeTransform evalText (n.getD ∅) entries o with
  | none => exact absurd hloop (hwritable.writeTransform_ne_none hperm)
  | some r =>
    cases r with
    | error e =>
      refine .inr ⟨⟨e, rfl⟩, fun vars b h _ => ?_⟩
      obtain ⟨vars', hvars'⟩ := h.exists_writeTransform hperm
      rw [hloop] at hvars'
      cases hvars'
    | ok vars =>
      have hreplaces := writeTransform_replaces hperm hloop
      cases hencode : lib.encode vars with
      | ok b => exact .inl ⟨vars, b, by simp only [hencode], hreplaces, hencode⟩
      | error e =>
        refine .inr ⟨⟨.wrap encodeText e, by simp only [hencode]⟩, fun vars' b h hencode' => ?_⟩
        obtain ⟨b', hb'⟩ := hlib.encodes (h.sameVars hreplaces) hencode'
        rw [hencode] at hb'
        cases hb'

variable {bytes : Option (Except Err Bytes)}

theorem Encodes.congr (h : lib.Encodes transform n o bytes)
    (hdet : lib.Deterministic) (hn : SameVars n n') (ho : SameVars o o') :
    lib.Encodes transform n' o' bytes := by
  rcases h with ⟨vars, b, hbytes, hreplaces, hencode⟩ | ⟨herror, hnone⟩
  · exact .inl ⟨vars, b, hbytes, hreplaces.congr hdet hn ho (.refl vars), hencode⟩
  · exact .inr ⟨herror, fun vars b h => hnone vars b (h.congr hdet hn.symm ho.symm (.refl vars))⟩

/-- **`OutputVars` computes the encoding of `o` with the keys of the transform replaced.** -/
theorem encodes_outputVars (hlib : lib.RoundTrips) (hdet : lib.Deterministic)
    (hnew : lib.Reads new n) (hold : lib.Reads old o) (hwritable : lib.Writable transform n o) :
    lib.Encodes transform n o (lib.outputVars order new old (some transform)) := by
  obtain ⟨n', hn', hsame⟩ := hnew
  obtain ⟨o', ho', hsame'⟩ := hold
  rw [outputVars, readVars, hn', ho']
  exact (encodes_encodeTransform hlib (order.perm transform)
    (hwritable.congr hdet hsame.symm hsame'.symm)).congr hdet hsame hsame'

/-- The order that comes first to an expression with a value panics on the nil map. -/
theorem exists_outputVars_eq_none (hdet : lib.Deterministic) (hnew : lib.Reads new n)
    (hold : lib.Reads old o) (h : ¬ lib.Writable transform n o) :
    ∃ order, lib.outputVars order new old (some transform) = none := by
  obtain ⟨n', hn', hsame⟩ := hnew
  obtain ⟨o', ho', hsame'⟩ := hold
  simp only [Writable, not_forall, not_not] at h
  obtain ⟨hnil, e, he, v, heval⟩ := h
  obtain ⟨rest, hfirst⟩ := MapOrder.entries_first he
  rw [← hdet.evalAny _ hsame] at heval
  refine ⟨.first e.1, ?_⟩
  rw [outputVars, readVars, hn', ho', hsame'.1.2 hnil, hfirst]
  simp [Except.map, encodeTransform, writeTransform, heval]

/-- A new set of variables is there to be written. -/
theorem inputVars_eq_encodeTransform :
    some (lib.inputVars order old new (some transform)) =
      match lib.readVars old with
      | .error e => some (.error (.wrap "decode old input variables" e))
      | .ok processVars => lib.encodeTransform "expression evalutaion failed"
          "encode transofrmed input variables" processVars (order.entries transform) (some ∅) := by
  rw [inputVars]
  cases lib.readVars old with
  | error e => rfl
  | ok processVars =>
    dsimp only
    rw [encodeTransform, writeTransform]
    cases lib.evalTransform _ processVars (order.entries transform) ∅ with
    | error e => rfl
    | ok vals => cases hencode : lib.encode (some vals) <;> simp [Except.map, hencode]

/-- **`InputVars` computes the encoding of the transform over `o`.** -/
theorem encodes_inputVars (hlib : lib.RoundTrips) (hdet : lib.Deterministic)
    (hold : lib.Reads old o) : lib.Encodes transform o (some ∅)
      (some (lib.inputVars order old new (some transform))) := by
  obtain ⟨o', ho', hsame⟩ := hold
  rw [inputVars_eq_encodeTransform, readVars, ho']
  exact (encodes_encodeTransform hlib (order.perm transform) (by rintro ⟨⟩)).congr hdet hsame
    (.refl _)

/-! ### The buffer -/

theorem Reads.sameVars (h : lib.Reads b vars) (h' : lib.Reads b vars') : SameVars vars vars' := by
  obtain ⟨decoded, hdecode, hsame⟩ := h
  obtain ⟨decoded', hdecode', hsame'⟩ := h'
  obtain rfl : decoded = decoded' := Except.ok.inj (hdecode.symm.trans hdecode')
  exact hsame.symm.trans hsame'

theorem Reads.congr (h : lib.Reads b vars) (hsame : SameVars vars vars') : lib.Reads b vars' := by
  obtain ⟨decoded, hdecode, hdecoded⟩ := h
  exact ⟨decoded, hdecode, hdecoded.trans hsame⟩

/-- **What the buffer is read as after the assignment.** The order of the map does not matter for
it. -/
theorem Encodes.assign_iff (h : lib.Encodes transform n o bytes)
    (hlib : lib.RoundTrips) (hdet : lib.Deterministic) {buffer : Bytes} :
    (∃ b, assign bytes buffer = (some (.ok ()), b) ∧ lib.Reads b vars) ↔
      lib.Replaces transform n o vars ∧ ∃ b, lib.encode vars = .ok b := by
  rcases h with ⟨vars₀, b₀, rfl, hreplaces, hencode⟩ | ⟨⟨e, rfl⟩, hnone⟩
  · constructor
    · rintro ⟨b, hassign, hreads⟩
      obtain rfl : b₀ = b := congrArg Prod.snd hassign
      have hsame : SameVars vars₀ vars := (hlib.reads hencode).sameVars hreads
      exact ⟨hreplaces.congr hdet (.refl n) (.refl o) hsame, hlib.encodes hsame hencode⟩
    · rintro ⟨h, -⟩
      exact ⟨b₀, rfl, (hlib.reads hencode).congr (hreplaces.sameVars h)⟩
  · constructor
    · rintro ⟨b, hassign, -⟩
      cases hassign
    · rintro ⟨h, b, hb⟩
      exact absurd hb (hnone vars b h)

/-- The call ends in an error and leaves the buffer as it was, or the buffer has the encoding of
`o` with the keys of the transform replaced. -/
def Exact (lib : Lib) (transform : GoMap String) (n o : Vars) (buffer : Bytes)
    (run : Option (Except Err Unit) × Bytes) : Prop :=
  (∃ e, run = (some (.error e), buffer)) ∨
    ∃ vars b, run = (some (.ok ()), b) ∧ lib.encode vars = .ok b ∧ lib.Reads b vars ∧
      lib.Replaces transform n o vars

/-- A buffer that is not assigned keeps its bytes. -/
theorem Encodes.exact (h : lib.Encodes transform n o bytes) (hlib : lib.RoundTrips)
    (buffer : Bytes) : lib.Exact transform n o buffer (assign bytes buffer) := by
  rcases h with ⟨vars, b, rfl, hreplaces, hencode⟩ | ⟨⟨e, rfl⟩, -⟩
  · exact .inr ⟨vars, b, rfl, hencode, hlib.reads hencode, hreplaces⟩
  · exact .inl ⟨e, rfl⟩

end Lib

open Lib in
/-- **A transform replaces its own keys and nothing else**, in every order of the map, exactly if
there is no value to be written into a nil map. -/
theorem transforms_exact {lib : Lib} (hlib : lib.RoundTrips) (hdet : lib.Deterministic)
    (transform : GoMap String) {old : Bytes} {o : Vars} (hold : lib.Reads old o) :
    (∀ {new : Bytes} {n : Vars}, lib.Reads new n →
      ((∀ order, lib.Exact transform n o old
        (lib.runOutputVars order new (some transform) old)) ↔ lib.Writable transform n o)) ∧
    (∀ (order order' : MapOrder) {new : Bytes} {n vars : Vars}, lib.Reads new n →
      lib.Writable transform n o →
      (∃ b, lib.runOutputVars order new (some transform) old = (some (.ok ()), b) ∧
        lib.Reads b vars) →
      ∃ b, lib.runOutputVars order' new (some transform) old = (some (.ok ()), b) ∧
        lib.Reads b vars) ∧
    ∀ (order : MapOrder) {new b : Bytes},
      lib.runInputVars order old (some transform) new = (some (.ok ()), b) →
      ∃ vars, lib.encode vars = .ok b ∧ lib.Reads b vars ∧
        lib.Replaces transform o (some ∅) vars := by
  refine ⟨fun {new n} hnew => ⟨fun hexact => ?_, fun hwritable order => ?_⟩,
    fun order order' _ _ _ hnew hwritable h => ?_, fun order new b h => ?_⟩
  · by_contra hnil
    obtain ⟨order, hpanic⟩ := exists_outputVars_eq_none hdet hnew hold hnil
    have hrun := hexact order
    rw [runOutputVars, hpanic] at hrun
    rcases hrun with ⟨e, herror⟩ | ⟨vars, b, hok, -⟩
    · cases herror
    · cases hok
  · exact (encodes_outputVars hlib hdet hnew hold hwritable).exact hlib old
  · have hset := (encodes_outputVars hlib hdet hnew hold hwritable).assign_iff hlib hdet |>.1 h
    exact (encodes_outputVars hlib hdet hnew hold hwritable).assign_iff hlib hdet |>.2 hset
  · have hinput : lib.Encodes transform o (some ∅)
        (some (lib.inputVars order old new (some transform))) := encodes_inputVars hlib hdet hold
    rcases hinput.exact hlib new with ⟨e, herror⟩ | ⟨vars, b', hok, hvars⟩
    · cases h.symm.trans herror
    · obtain rfl : b = b' := congrArg Prod.snd (h.symm.trans hok)
      exact ⟨vars, hvars⟩

/-! ### Two variables -/

variable {vals : GoMap Value}

theorem BoolVars.of_lookup (h : BoolVars vals) {key : String} {v : Value}
    (hv : vals.lookup key = some v) : (key = "a" ∨ key = "b") ∧ ∃ b, v = .bool b := by
  obtain ⟨hkey, hcode⟩ := h ⟨key, v⟩ (mem_lookup_iff.1 hv)
  cases v with
  | bool b => exact ⟨hkey, b, rfl⟩
  | _ => exact absurd rfl hcode

theorem encode_boolLib_iff {b : Bytes} : boolLib.encode (some vals) = .ok b ↔
      BoolVars vals ∧ b = [0x80, boolCode (vals.lookup "a"), boolCode (vals.lookup "b")] := by
  rw [Lib.encode, boolLib]
  dsimp only
  split_ifs with hvars
  · simp [hvars, eq_comm]
  · simp [hvars]

theorem lookup_writeBool_self {key : String} {vals vals' : GoMap Value} (hvars : BoolVars vals')
    (hkey : vals.lookup key = none) :
    (writeBool key (boolCode (vals'.lookup key)) vals).lookup key = vals'.lookup key := by
  cases hv : vals'.lookup key with
  | none => simpa [writeBool, boolCode] using hkey
  | some v =>
    obtain ⟨-, b, rfl⟩ := hvars.of_lookup hv
    cases b <;> simp [writeBool, boolCode]

theorem lookup_writeBool_of_ne {key key' : String} {code : UInt8}
    (h : key' ≠ key) : (writeBool key code vals).lookup key' = vals.lookup key' := by
  rw [writeBool]
  split_ifs
  · exact lookup_insert_ne h
  · exact lookup_insert_ne h
  · rfl

/-- Two Booleans are read back from their bytes. -/
theorem boolLib_reads {b : Bytes} (h : boolLib.encode (some vals) = .ok b) :
    boolLib.Reads b (some vals) := by
  obtain ⟨hvars, rfl⟩ := encode_boolLib_iff.1 h
  refine ⟨_, rfl, by simp, fun key => ?_⟩
  by_cases hb : key = "b"
  · subst hb
    exact lookup_writeBool_self hvars (lookup_writeBool_of_ne nofun)
  rw [Option.getD_some, lookup_writeBool_of_ne hb]
  by_cases ha : key = "a"
  · subst ha
    exact lookup_writeBool_self hvars rfl
  rw [lookup_writeBool_of_ne ha]
  cases hv : vals.lookup key with
  | none => exact hv.symm
  | some v => exact absurd (hvars.of_lookup hv).1 (by simp [ha, hb])

theorem boolLib_roundTrips : boolLib.RoundTrips where
  reads {vars b} h := by
    cases vars with
    | none =>
      cases h
      exact ⟨none, rfl, .refl none⟩
    | some vals => exact boolLib_reads h
  encodes {vars vars' b} hsame h := by
    cases vars' with
    | none => exact ⟨[0xc0], rfl⟩
    | some vals' =>
      obtain ⟨vals, rfl⟩ := Option.ne_none_iff_exists'.1 (mt hsame.1.1 (by simp))
      obtain ⟨hvars, -⟩ := encode_boolLib_iff.1 h
      refine ⟨_, encode_boolLib_iff.2 ⟨fun e he => hvars e (mem_lookup_iff.1 ?_), rfl⟩⟩
      exact (hsame.2 e.1).trans (mem_lookup_iff.2 he)

theorem boolLib_deterministic : boolLib.Deterministic := by
  intro exp vals vals' h
  simp only [boolLib, h exp]

/-- The timer of a workflow writes its variable `a` under the key `b`, in the buffer it comes
from. The same transform at the start of a task leaves `b` alone in a new buffer. -/
theorem transforms_exact_aliased :
    (∃ vars, boolLib.runOutputVars .listed [0x80, 2, 0] (some (AList.singleton "b" "a"))
        [0x80, 2, 0] = (some (.ok ()), [0x80, 2, 2]) ∧ boolLib.Reads [0x80, 2, 2] vars ∧
      boolLib.Replaces (AList.singleton "b" "a") (some (AList.singleton "a" (.bool true)))
        (some (AList.singleton "a" (.bool true))) vars) ∧
    ∃ vars, boolLib.runInputVars .listed [0x80, 2, 0] (some (AList.singleton "b" "a")) [] =
        (some (.ok ()), [0x80, 0, 2]) ∧ boolLib.Reads [0x80, 0, 2] vars ∧
      boolLib.Replaces (AList.singleton "b" "a") (some (AList.singleton "a" (.bool true)))
        (some ∅) vars := by
  have hreads : boolLib.Reads [0x80, 2, 0] (some (AList.singleton "a" (.bool true))) :=
    boolLib_roundTrips.reads (encode_boolLib_iff.2 ⟨by decide, rfl⟩)
  have hrun : boolLib.runOutputVars .listed [0x80, 2, 0] (some (AList.singleton "b" "a"))
      [0x80, 2, 0] = (some (.ok ()), [0x80, 2, 2]) := rfl
  have hrun' : boolLib.runInputVars .listed [0x80, 2, 0] (some (AList.singleton "b" "a")) [] =
      (some (.ok ()), [0x80, 0, 2]) := rfl
  obtain ⟨houtput, -, hinput⟩ := transforms_exact boolLib_roundTrips boolLib_deterministic
    (AList.singleton "b" "a") hreads
  refine ⟨?_, ?_⟩
  · rcases (houtput hreads).2 (by rintro ⟨⟩) .listed with ⟨e, herror⟩ | ⟨vars, b, hok, -, hvars,
      hreplaces⟩
    · cases hrun.symm.trans herror
    · obtain rfl : [0x80, 2, 2] = b := congrArg Prod.snd (hrun.symm.trans hok)
      exact ⟨vars, hrun, hvars, hreplaces⟩
  · obtain ⟨vars, -, hvars, hreplaces⟩ := hinput .listed hrun'
    exact ⟨vars, hrun', hvars, hreplaces⟩

/-- The variables of a retry are the code of nil, and the activity has an output transform. -/
theorem nil_buffer_panics : boolLib.RoundTrips ∧ boolLib.Deterministic ∧
    boolLib.Reads [0x80, 2, 0] (some (AList.singleton "a" (.bool true))) ∧
    boolLib.Reads [0xc0] none ∧
    boolLib.runOutputVars .listed [0x80, 2, 0] (some (AList.singleton "b" "a")) [0xc0] =
      (none, [0xc0]) :=
  ⟨boolLib_roundTrips, boolLib_deterministic,
    boolLib_roundTrips.reads (encode_boolLib_iff.2 ⟨by decide, rfl⟩), ⟨none, rfl, .refl none⟩, rfl⟩

end SharWorkflow
