import Mathlib.Order.Lattice
import Mathlib.Data.List.Lex
import SharWorkflow.Concurrent.Sequential
import SharWorkflow.Model.Errors

/-!
# The upgrade of a stream

When the server starts, `EnsureStream` creates a stream or brings it up to date. The version that a
stream was last set up with is in its metadata, and that is where `EnsureStream` looks to find out
**whether** to upgrade it. But it looks for the version to start **from** in the description of the
stream, where older servers left it, and starts from the running version if there is none. So the
patches that are run are those after the version in the description.

* `upgradeExpr`: the part of a text that looks like a version. `requiresUpgrade`.
* `patchFrom`: `Patch`. `ensureStream`: `EnsureStream`.
* `ensureStream_iff`: **the patches after the version of the stream are run, and then the version is
  set, if and only if** the version in the metadata calls for an upgrade and the version in the
  description leads to the same patches.
-/

namespace SharWorkflow

open Concurrent

/-! ### Versions -/

/-- Digits with two dots between them. -/
def isVersionText (cs : List Char) : Bool :=
  cs.all (fun c => c.isDigit || c == '.') && cs.count '.' == 2

/-- `upgradeExpr.FindString`: the leftmost match at the end of a line, and the longest there. -/
def upgradeExpr (text : String) : String :=
  let found := (text.toList.splitOn '\n').filterMap fun line => line.tails.find? isVersionText
  String.ofList (found.head?.getD [])

/-- The configuration of a stream. -/
structure StreamConfig where
  name : String
  description : String := ""
  metadata : GoMap String := ∅
  memoryStorage : Bool := false

section Setup

variable {V : Type} (parse : String → Except Err V)

/-- `requiresUpgrade`. -/
def requiresUpgrade [LinearOrder V] (description newVersion : String) : Bool :=
  let v := upgradeExpr description
  if v = "" then true
  else
    match parse v with
    | .error _ => true
    | .ok v1 =>
      match parse newVersion with
      | .error _ => true
      | .ok v2 => v1 ≤ v2

/-- The version of a patch, from the name of its function. -/
def patchVersion (name : String) : String :=
  String.ofList (name.toList.map fun c => if c = '_' then '.' else c)

/-- A patch. When the program starts it makes sure that the names of its patches are versions. -/
structure Patch where
  name : String
  version : V
  parse_name : parse (patchVersion name) = .ok version

/-! ### The streams of a server -/

variable {parse}

/-- A call to the server. -/
inductive JsOp (parse : String → Except Err V)
  | stream (name : String)
  | info (name : String)
  | createStream (cfg : StreamConfig)
  | updateStream (cfg : StreamConfig)
  | patch (p : Patch parse)

/-- Its answer. A stream may be missing. -/
def JsAns : JsOp parse → Type
  | .stream _ => Except Err Bool
  | .info _ => Except Err StreamConfig
  | .createStream _ => Except Err Unit
  | .updateStream _ => Except Err Unit
  | .patch _ => Except Err Unit

/-- What was done to the server. -/
inductive Change (parse : String → Except Err V)
  | created (cfg : StreamConfig)
  | updated (cfg : StreamConfig)
  | patched (p : Patch parse)

/-- The streams of a server, and what was done so far. -/
structure JetStream (parse : String → Except Err V) where
  streams : String → Option StreamConfig
  changes : List (Change parse) := []

namespace JetStream

/-- The stream has a new configuration. -/
def set (s : JetStream parse) (cfg : StreamConfig) (c : Change parse) : JetStream parse where
  streams := Function.update s.streams cfg.name (some cfg)
  changes := s.changes ++ [c]

/-- A patch was run. -/
def ran (s : JetStream parse) (p : Patch parse) : JetStream parse :=
  { s with changes := s.changes ++ [.patched p] }

/-- The effect of the calls. The calls in `F` may fail, without any effect. -/
def env (F : JsOp parse → Prop) : Environment (JsOp parse) JsAns (JetStream parse)
  | .stream name, s, r, s' => s' = s ∧
      (r = Except.ok (s.streams name).isSome ∨ F (.stream name) ∧ ∃ e, r = Except.error e)
  | .info name, s, r, s' => s' = s ∧
      ((∃ cfg, s.streams name = some cfg ∧ r = Except.ok cfg) ∨
        (s.streams name = none ∨ F (.info name)) ∧ ∃ e, r = Except.error e)
  | .createStream cfg, s, r, s' =>
      (r = Except.ok () ∧ s' = s.set cfg (.created cfg)) ∨
        (s' = s ∧ F (.createStream cfg) ∧ ∃ e, r = Except.error e)
  | .updateStream cfg, s, r, s' =>
      (r = Except.ok () ∧ s' = s.set cfg (.updated cfg)) ∨
        (s' = s ∧ F (.updateStream cfg) ∧ ∃ e, r = Except.error e)
  | .patch p, s, r, s' =>
      (r = Except.ok () ∧ s' = s.ran p) ∨ (s' = s ∧ F (.patch p) ∧ ∃ e, r = Except.error e)

end JetStream

/-- A program of the setup. -/
abbrev Setup (parse : String → Except Err V) (α : Type) : Type 1 :=
  ExceptT Err (Prog (JsOp parse) JsAns) α

namespace Setup

variable {α : Type}

/-- The errors of a program are wrapped. -/
def wrap (text : String) (x : Setup parse α) : Setup parse α :=
  ExceptT.mk (x.run.bind fun r => .ret (r.mapError (.wrap text)))

/-- `js.Stream`: whether there is a stream. -/
def stream (name : String) : Setup parse Bool := ExceptT.mk (Prog.perform (JsOp.stream name))

/-- `stream.Info`. -/
def info (name : String) : Setup parse StreamConfig := ExceptT.mk (Prog.perform (JsOp.info name))

/-- `js.CreateStream`. -/
def createStream (cfg : StreamConfig) : Setup parse Unit :=
  ExceptT.mk (Prog.perform (JsOp.createStream cfg))

/-- `js.UpdateStream`. -/
def updateStream (cfg : StreamConfig) : Setup parse Unit :=
  ExceptT.mk (Prog.perform (JsOp.updateStream cfg))

/-- A patch is run. -/
def runPatch (p : Patch parse) : Setup parse Unit := ExceptT.mk (Prog.perform (JsOp.patch p))

end Setup

section Patches

variable [LinearOrder V] [ToString V]

/-- The loop of `Patch`. -/
def patchLoop (v1 : V) (fromVersion : String) : List (Patch parse) → Setup parse Unit
  | [] => pure ()
  | i :: rest => do
    match parse (patchVersion i.name) with
    | .error e => throw (.wrap ("reading patch version from '" ++ fromVersion ++ "'") e)
    | .ok v2 =>
      if v1 < v2 then Setup.wrap ("patching " ++ toString v2) (Setup.runPatch i)
      patchLoop v1 fromVersion rest

/-- `Patch`, for a list of patches. -/
def patchFrom (list : List (Patch parse)) (fromVersion : String) : Setup parse Unit :=
  match parse fromVersion with
  | .error e => throw (.wrap ("reading target version from '" ++ fromVersion ++ "'") e)
  | .ok v1 => patchLoop v1 fromVersion list

/-- The key of the version in the metadata of a stream. -/
def sharVersionKey : String := "shar_version"

/-- The configuration of a stream that is set up with the running version. -/
def StreamConfig.withVersion (cfg : StreamConfig) (version : String) : StreamConfig :=
  { cfg with metadata := cfg.metadata.insert sharVersionKey version }

/-- The version to start from: the one in the description, or the running version. -/
def existingVer (running description : String) : String :=
  if upgradeExpr description = "" then running else upgradeExpr description

/-- `EnsureStream`, with the running version and its patches. -/
def ensureStream (running : String) (list : List (Patch parse)) (streamConfig : StreamConfig)
    (memoryStorage : Bool) : Setup parse Unit := do
  let streamConfig := { streamConfig with memoryStorage := memoryStorage }
  let found ← Setup.wrap "get stream" (Setup.stream streamConfig.name)
  if found then
    let streamInfo ← Setup.wrap "get stream info" (Setup.info streamConfig.name)
    if requiresUpgrade parse ((streamInfo.metadata.lookup sharVersionKey).getD "") running then
      Setup.wrap "ensure stream" (patchFrom list (existingVer running streamInfo.description))
      Setup.wrap "ensure stream updating stream configuration"
        (Setup.updateStream (streamConfig.withVersion running))
  else
    Setup.wrap "create stream" (Setup.createStream (streamConfig.withVersion running))

end Patches

/-! ### The effect of the calls -/

section Rules

variable {F : JsOp parse → Prop} {X : Prop} {s : JetStream parse} {α : Type}

/-- No call fails. -/
def JetStream.noFault : JsOp parse → Prop := fun _ => False

open JetStream

theorem ends_setupWrap {Q : JetStream parse → Except Err α → Prop} {text : String}
    {x : Setup parse α} : Ends (env F) X Q s (Setup.wrap text x).run ↔
      Ends (env F) X (fun s r => Q s (r.mapError (.wrap text))) s x.run :=
  ends_bind.trans ⟨fun h => h.mono fun _ _ => ends_ret.1, fun h => h.mono fun _ _ => ends_ret.2⟩

theorem ends_stream {name : String} {Q : JetStream parse → Except Err Bool → Prop} :
    Ends (env noFault) X Q s (Setup.stream name).run ↔
      Q s (.ok (s.streams name).isSome) := by
  refine (ends_call (o := JsOp.stream name)).trans
    ⟨fun h => ends_ret.1 (h.2 _ _ ⟨rfl, .inl rfl⟩), fun hQ => ⟨?_, ?_⟩⟩
  · exact .inr ⟨_, s, rfl, .inl rfl⟩
  · rintro r s' ⟨rfl, rfl | ⟨hF, -⟩⟩
    · exact ends_ret.2 hQ
    · exact hF.elim

theorem ends_info {name : String} {cfg : StreamConfig}
    {Q : JetStream parse → Except Err StreamConfig → Prop} (h : s.streams name = some cfg) :
    Ends (env noFault) X Q s (Setup.info name).run ↔ Q s (.ok cfg) := by
  refine (ends_call (o := JsOp.info name)).trans
    ⟨fun h' => ends_ret.1 (h'.2 _ _ ⟨rfl, .inl ⟨cfg, h, rfl⟩⟩), fun hQ => ⟨?_, ?_⟩⟩
  · exact .inr ⟨_, s, rfl, .inl ⟨cfg, h, rfl⟩⟩
  · rintro r s' ⟨rfl, ⟨cfg', hcfg, rfl⟩ | ⟨hnone | hF, -⟩⟩
    · obtain rfl := Option.mem_unique h hcfg
      exact ends_ret.2 hQ
    · cases hnone.symm.trans h
    · exact hF.elim

variable {Q : JetStream parse → Except Err Unit → Prop}

theorem ends_updateStream {cfg : StreamConfig} :
    Ends (env noFault) X Q s (Setup.updateStream cfg).run ↔
      Q (s.set cfg (.updated cfg)) (.ok ()) := by
  refine (ends_call (o := JsOp.updateStream cfg)).trans
    ⟨fun h => ends_ret.1 (h.2 _ _ (.inl ⟨rfl, rfl⟩)), fun hQ => ⟨?_, ?_⟩⟩
  · exact .inr ⟨_, _, .inl ⟨rfl, rfl⟩⟩
  · rintro r s' (⟨rfl, rfl⟩ | ⟨-, hF, -⟩)
    · exact ends_ret.2 hQ
    · exact hF.elim

theorem ends_runPatch {p : Patch parse} :
    Ends (env noFault) X Q s (Setup.runPatch p).run ↔ Q (s.ran p) (.ok ()) := by
  refine (ends_call (o := JsOp.patch p)).trans
    ⟨fun h => ends_ret.1 (h.2 _ _ (.inl ⟨rfl, rfl⟩)), fun hQ => ⟨?_, ?_⟩⟩
  · exact .inr ⟨_, _, .inl ⟨rfl, rfl⟩⟩
  · rintro r s' (⟨rfl, rfl⟩ | ⟨-, hF, -⟩)
    · exact ends_ret.2 hQ
    · exact hF.elim

/-! ### Patches -/

variable [LinearOrder V]

/-- The patches after a version. -/
def patchesAfter (v : V) (list : List (Patch parse)) : List (Patch parse) :=
  list.filter fun p => v < p.version

/-- Some patches were run, one after the other. -/
def JetStream.ranAll (s : JetStream parse) (ps : List (Patch parse)) : JetStream parse :=
  { s with changes := s.changes ++ ps.map .patched }

/-- The patches after the version `v` were run in their order, and then the running version was
set. -/
def Upgraded (running name : String) (list : List (Patch parse)) (v : V) (s s' : JetStream parse)
    (r : Except Err Unit) : Prop :=
  r = .ok () ∧ ∃ cfg : StreamConfig, cfg.metadata.lookup sharVersionKey = some running ∧
    s'.streams name = some cfg ∧
    s'.changes = s.changes ++ (patchesAfter v list).map .patched ++ [.updated cfg]

theorem patchesAfter_eq_iff {u v : V} {list : List (Patch parse)} :
    patchesAfter u list = patchesAfter v list ↔ ∀ p ∈ list, u < p.version ↔ v < p.version := by
  constructor
  · intro h p hp
    have hmem : p ∈ patchesAfter u list ↔ p ∈ patchesAfter v list := by rw [h]
    simpa [patchesAfter, hp] using hmem
  · intro h
    exact List.filter_congr fun p hp => by simpa using h p hp

variable [ToString V]

/-- **The loop runs the patches after the version that it starts from**, in their order. -/
theorem ends_patchLoop {v1 : V} {fromVersion : String} {list : List (Patch parse)} :
    Ends (env noFault) X Q s (patchLoop v1 fromVersion list).run ↔
      Q (s.ranAll (patchesAfter v1 list)) (.ok ()) := by
  induction list generalizing s with
  | nil =>
    have hnone : s.ranAll (patchesAfter v1 []) = s := by
      simp [ranAll, patchesAfter]
    rw [patchLoop, ends_pure, hnone]
  | cons p rest ih =>
    rw [patchLoop, p.parse_name]
    simp only
    by_cases hlt : v1 < p.version
    · have hafter : s.ranAll (patchesAfter v1 (p :: rest)) =
          (s.ran p).ranAll (patchesAfter v1 rest) := by
        simp [ranAll, ran, patchesAfter, hlt]
      rw [if_pos hlt, ends_seq, ends_setupWrap, ends_runPatch, hafter]
      exact ih
    · have hafter : patchesAfter v1 (p :: rest) = patchesAfter v1 rest := by
        simp [patchesAfter, hlt]
      rw [if_neg hlt, hafter]
      exact ih

section Upgrade

variable {running sharVersion : String} {list : List (Patch parse)}
  {streamConfig old : StreamConfig} {memoryStorage : Bool}

section

variable (hold : s.streams streamConfig.name = some old)
  (hversion : old.metadata.lookup sharVersionKey = some sharVersion)
include hold hversion

/-- What is done with a stream that is there. -/
theorem ends_ensureStream_found :
    Ends (env noFault) X Q s
        (ensureStream running list streamConfig memoryStorage).run ↔
      Ends (env noFault) X Q s
        (if requiresUpgrade parse sharVersion running = true then do
          Setup.wrap "ensure stream" (patchFrom list (existingVer running old.description))
          Setup.wrap "ensure stream updating stream configuration" (Setup.updateStream
            ({ streamConfig with memoryStorage := memoryStorage }.withVersion running))
        else pure () : Setup parse Unit).run := by
  rw [ensureStream, ends_seq, ends_setupWrap, ends_stream, hold]
  simp only [Option.isSome_some, Except.mapError, if_true]
  rw [ends_seq, ends_setupWrap, ends_info hold]
  simp only [Except.mapError, hversion, Option.getD_some]

/-- A stream that calls for an upgrade gets the patches after the version in its description. -/
theorem ends_ensureStream {start : V}
    (hupgrade : requiresUpgrade parse sharVersion running = true)
    (hstart : parse (existingVer running old.description) = .ok start) :
    Ends (env noFault) X Q s
        (ensureStream running list streamConfig memoryStorage).run ↔
      Q ((s.ranAll (patchesAfter start list)).set
        ({ streamConfig with memoryStorage := memoryStorage }.withVersion running)
        (.updated ({ streamConfig with memoryStorage := memoryStorage }.withVersion running)))
        (.ok ()) := by
  rw [ends_ensureStream_found hold hversion, if_pos hupgrade, ends_seq, ends_setupWrap, patchFrom,
    hstart]
  simp only [ends_patchLoop, Except.mapError, ends_setupWrap, ends_updateStream]

end

/-- **`EnsureStream` upgrades a stream from its version `v`, if and only if** the version in its
metadata calls for an upgrade, and after the version in its description, or after the running
version if there is none, there are the same patches as after `v`. -/
theorem ensureStream_iff {v : V} (hold : s.streams streamConfig.name = some old)
    (hversion : old.metadata.lookup sharVersionKey = some sharVersion) :
    Ends (JetStream.env JetStream.noFault) False (Upgraded running streamConfig.name list v s) s
        (ensureStream running list streamConfig memoryStorage).run ↔
      requiresUpgrade parse sharVersion running = true ∧
        ∃ start, parse (existingVer running old.description) = .ok start ∧
          ∀ p ∈ list, start < p.version ↔ v < p.version := by
  by_cases hupgrade : requiresUpgrade parse sharVersion running = true
  · cases hstart : parse (existingVer running old.description) with
    | error e =>
      refine iff_of_false (fun h => ?_) (by simp)
      rw [ends_ensureStream_found hold hversion, if_pos hupgrade, ends_seq, ends_setupWrap,
        patchFrom, hstart] at h
      cases (ends_throw.1 h).1
    | ok start =>
      rw [ends_ensureStream hold hversion hupgrade hstart, Upgraded]
      simp only [Except.ok.injEq, exists_eq_left', ← patchesAfter_eq_iff, hupgrade, true_and]
      constructor
      · rintro ⟨cfg, -, -, hchanges⟩
        rw [JetStream.set, JetStream.ranAll, List.append_assoc, List.append_assoc,
          List.append_cancel_left_eq] at hchanges
        have hpatched := (List.append_inj' hchanges rfl).1
        exact List.map_injective_iff.2 (fun _ _ => Change.patched.inj) hpatched
      · intro hsame
        refine ⟨_, AList.lookup_insert _, Function.update_self _ _ _, ?_⟩
        rw [JetStream.set, JetStream.ranAll, hsame]
  · refine iff_of_false (fun h => ?_) fun h => hupgrade h.1
    rw [ends_ensureStream_found hold hversion, if_neg hupgrade, ends_pure] at h
    obtain ⟨-, cfg, -, -, hchanges⟩ := h
    have hlength := congrArg List.length hchanges
    simp at hlength

end Upgrade

end Rules

end Setup

/-! ### A stream of version 1.1.400 -/

/-- Versions with numbers only. -/
def readVersion (text : String) : Except Err (List ℕ) :=
  let parts := (text.toList.filter (· ≠ 'v')).splitOn '.'
  if parts.all fun part => part.all Char.isDigit && !part.isEmpty then
    .ok (parts.map fun part => part.foldl (fun n c => 10 * n + (c.toNat - '0'.toNat)) 0)
  else .error (.text "Malformed version")

/-- The patch of the server. -/
def patch503 : Patch readVersion := ⟨"v1_1_503", [1, 1, 503], rfl⟩

/-- A stream of version 1.1.400. -/
def stream400 (description : String) : StreamConfig where
  name := "WORKFLOW"
  description := description
  metadata := AList.singleton sharVersionKey "v1.1.400"

/-- A server with this stream. -/
def server400 (description : String) : JetStream readVersion where
  streams := Function.update (fun _ => none) "WORKFLOW" (some (stream400 description))

theorem server400_stream (description : String) :
    (server400 description).streams ({ name := "WORKFLOW" } : StreamConfig).name =
      some (stream400 description) := by
  simp only [server400, Function.update_self]

theorem stream400_version (description : String) :
    (stream400 description).metadata.lookup sharVersionKey = some "v1.1.400" := rfl

theorem server400_requiresUpgrade :
    requiresUpgrade readVersion "v1.1.400" "v1.1.670" = true := by decide +kernel

/-- With its version in the description as well, the stream is upgraded. -/
theorem server400_upgraded : Ends (JetStream.env JetStream.noFault) False
      (Upgraded "v1.1.670" "WORKFLOW" [patch503] [1, 1, 400] (server400 "SHAR v1.1.400"))
      (server400 "SHAR v1.1.400")
      (ensureStream "v1.1.670" [patch503] { name := "WORKFLOW" } false).run := by
  have hexisting : existingVer "v1.1.670" "SHAR v1.1.400" = "1.1.400" := by decide +kernel
  refine (ensureStream_iff (server400_stream _) (stream400_version _)).2
    ⟨server400_requiresUpgrade, [1, 1, 400], ?_, fun p _ => Iff.rfl⟩
  rw [stream400, hexisting]
  rfl

/-- Without a description the patch is not run, and the stream is of the running version. -/
theorem server400_not_patched :
    (readVersion "v1.1.400" = .ok [1, 1, 400] ∧ [1, 1, 400] < patch503.version) ∧
    Ends (JetStream.env JetStream.noFault) False
      (fun s' r => r = .ok () ∧ ∃ cfg, cfg.metadata.lookup sharVersionKey = some "v1.1.670" ∧
        s'.changes = [.updated cfg])
      (server400 "") (ensureStream "v1.1.670" [patch503] { name := "WORKFLOW" } false).run := by
  have hexisting : existingVer "v1.1.670" "" = "v1.1.670" := by decide +kernel
  have hstart : readVersion (existingVer "v1.1.670" (stream400 "").description) =
      .ok [1, 1, 670] := by
    rw [stream400, hexisting]
    rfl
  have hnone : patchesAfter [1, 1, 670] [patch503] = [] := by
    have hnot : ¬ [1, 1, 670] < patch503.version := by decide +kernel
    simp [patchesAfter, hnot]
  refine ⟨⟨rfl, by decide +kernel⟩, ?_⟩
  rw [ends_ensureStream (server400_stream _) (stream400_version _) server400_requiresUpgrade hstart]
  refine ⟨rfl, ({ name := "WORKFLOW" } : StreamConfig).withVersion "v1.1.670",
    AList.lookup_insert _, ?_⟩
  rw [JetStream.set, JetStream.ranAll, hnone]
  rfl

end SharWorkflow
