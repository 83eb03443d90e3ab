import SharWorkflow.Model.Errors
import SharWorkflow.Model.Data

/-!
# The linter

The checks of `common/linter`, which the parser runs on a definition: the **link events** of each
process pair up (`linkEventRules`), and every path from a start event ends in an end event
(`startDirectedScan`).

The order in which the runtime ranges over the processes and over the names of the links decides the
order of the messages and which error is returned first, and nothing else; the functions below take
them in the order of their entries. The scan follows each element at most once, so that the number
of elements bounds its depth.
-/

namespace SharWorkflow

/-! ### Messages -/

/-- The class of a linter message, in the order of its number. -/
inductive MessageType
  | error
  | warning
  | info
  deriving DecidableEq, Repr

/-- A linter finding. -/
structure LintMessage where
  type : MessageType
  text : String
  deriving DecidableEq, Repr

/-! ### Link events -/

/-- A link throw event of the given name. -/
def Element.isLinkThrow (link : String) (e : Element) : Bool :=
  e.type = .linkIntermediateThrowEvent ∧ e.execute = link

/-- The names of the links of a process, each with the id of an event, and the messages so far. -/
structure LinkNames where
  catch_ : GoMap String := ∅
  throw_ : GoMap String := ∅
  msgs : List LintMessage := []

/-- One element is entered into the names of the links. -/
def LinkNames.enter (processId : String) (names : LinkNames) (e : Element) : LinkNames :=
  if e.type = .linkIntermediateCatchEvent then
    match names.catch_.lookup e.execute with
    | none => { names with catch_ := names.catch_.insert e.execute e.id }
    | some x => { names with
        msgs := names.msgs ++ [⟨.error, "Duplicate link catch: " ++ x ++ " in " ++ processId⟩] }
  else if e.type = .linkIntermediateThrowEvent then
    { names with throw_ := names.throw_.insert e.execute e.id }
  else names

/-- The names of `events` that are not among those of `others`. -/
def unmatchedLinks (type : MessageType) (text processId : String) (events others : GoMap String) :
    List LintMessage :=
  (events.entries.filter fun k => (others.lookup k.1).isNone).map fun k =>
    ⟨type, text ++ k.1 ++ " in " ++ k.2 ++ " in " ++ processId⟩

/-- `linkEventRules`: the messages about the links of a process. -/
def linkEventRules (process : Process) : List LintMessage :=
  let names := process.elements.foldl (LinkNames.enter process.id) {}
  names.msgs ++
    unmatchedLinks .error "No link catch for throw " process.id names.throw_ names.catch_ ++
    unmatchedLinks .warning "No link throw for catch " process.id names.catch_ names.throw_

/-! ### The directed scan -/

/-- The text of an element type in a definition. -/
def ElementType.text : ElementType → String
  | callActivity => "callActivity"
  | endEvent => "endEvent"
  | compensateEndEvent => "compensateEndEvent"
  | gateway => "Gateway"
  | linkIntermediateCatchEvent => "intermediateLinkCatchEvent"
  | linkIntermediateThrowEvent => "intermediateLinkThrowEvent"
  | manualTask => "manualTask"
  | messageIntermediateCatchEvent => "messageIntermediateCatchEvent"
  | messageIntermediateThrowEvent => "intermediateMessageThrowEvent"
  | serviceTask => "serviceTask"
  | startEvent => "startEvent"
  | timedStartEvent => "timedStartEvent"
  | timerIntermediateCatchEvent => "timerIntermediateCatchEvent"
  | userTask => "userTask"
  | other name => name

/-- How a scan ends: with the ids that have been visited, with an error, or by a panic. A scan that
runs out of fuel is `unfinished`. -/
inductive Scanned
  | done (visited : List String)
  | failed (e : Err)
  | panics
  | unfinished

/-- The elements that the scan goes on to. A link throw event leads back to itself, if any other
element has the same text to execute. -/
def scanTargets (index : GoMap Element) (el : Element) : Except Err (List String) :=
  if el.type = .linkIntermediateThrowEvent then
    -- an element that the scan has come to is the one that is indexed under its id
    if index.entries.any fun srch => srch.2.id ≠ el.id ∧ srch.2.execute = el.execute then
      .ok [el.id]
    else .error (.wrap ("find element referred to in " ++ el.type.text ++ " " ++ el.name ++ "(" ++
      el.id ++ ")") (.text "link references non-existent target"))
  else .ok ((el.outbound.map fun outbound => outbound.target.map (·.target)).getD [])

/-- The end of a path. -/
def endOfProcess (el : Element) (visited : List String) : Scanned :=
  if el.type = .endEvent ∨ el.type = .compensateEndEvent then .done visited
  else .failed (.wrap ("last event '" ++ el.name ++ "' is " ++ el.type.text ++
    " not a recognized end event") (.text "missing end event"))

/-- The targets of an element, one after the other. The first one that has been visited before ends
the loop. -/
def scanEach (scan : Element → List String → Scanned) (index : GoMap Element) :
    List String → List String → Scanned
  | [], visited => .done visited
  | t :: rest, visited =>
    match index.lookup t with
    | none => .panics
    | some target =>
      if target.id ∈ visited then .done visited
      else
        match scan target (target.id :: visited) with
        | .done visited => scanEach scan index rest visited
        | other => other

/-- `directedColouredTraverse`. -/
def directedColouredTraverse (index : GoMap Element) : Nat → Element → List String → Scanned
  | 0, _, _ => .unfinished
  | fuel + 1, el, visited =>
    match scanTargets index el with
    | .error e => .failed e
    | .ok [] => endOfProcess el visited
    | .ok targets => scanEach (directedColouredTraverse index fuel) index targets visited

/-- `findProcessStarts`. -/
def findProcessStarts (process : Process) : List Element :=
  process.elements.filter fun elem => elem.type = .startEvent ∨ elem.type = .timedStartEvent

/-- The scans from all start events. -/
def scanStarts (index : GoMap Element) (fuel : Nat) : List Element → List String → Scanned
  | [], visited => .done visited
  | start :: rest, visited =>
    match directedColouredTraverse index fuel start (start.id :: visited) with
    | .done visited => scanStarts index fuel rest visited
    | .failed e => .failed (.wrap "directed graph scan failed" e)
    | other => other

/-- `startDirectedScan`. -/
def startDirectedScan (process : Process) : Scanned :=
  let index := processTable process
  scanStarts index (index.entries.length + 1) (findProcessStarts process) []

/-! ### The linter -/

/-- The messages of the linter, and its error. Without a result it panics. -/
def lintProcesses : List Process → List LintMessage → Option (Except Err (List LintMessage))
  | [], m => some (.ok m)
  | p :: rest, m =>
    match startDirectedScan p with
    | .done _ => lintProcesses rest (m ++ linkEventRules p)
    | .failed e => some (.error (.wrap "a directed scan of the process revealed errors" e))
    | _ => none

/-- The message is one that makes the linter return an error. -/
def LintMessage.isError (warningsAsErrors : Bool) (m : LintMessage) : Bool :=
  m.type = .error || (warningsAsErrors && m.type = .warning)

/-- `Lint`: the messages, and the error if there is one. A panic has no result. -/
def lint (wf : Workflow) (warningsAsErrors : Bool) : Option (List LintMessage × Option Err) :=
  (lintProcesses (wf.process.entries.map (·.2)) []).map fun
    | .error e => ([], some e)
    | .ok m => (m, if m.any (·.isError warningsAsErrors) then
        some (.wrap "linter returned errors" (.text "linter returned errors")) else none)

/-- The linter comes to the end of the processes exactly when every scan ends well; the messages are
those about the links of all processes. -/
theorem lintProcesses_eq_ok {ps : List Process} {m m' : List LintMessage}
    (h : lintProcesses ps m = some (.ok m')) : m' = m ++ ps.flatMap linkEventRules ∧
      ∀ p ∈ ps, ∃ visited, startDirectedScan p = .done visited := by
  induction ps generalizing m with
  | nil =>
    cases h
    exact ⟨by simp, nofun⟩
  | cons p rest ih =>
    unfold lintProcesses at h
    split at h
    · rename_i visited hdone
      obtain ⟨rfl, hrest⟩ := ih h
      exact ⟨by simp, List.forall_mem_cons.2 ⟨⟨visited, hdone⟩, hrest⟩⟩
    · cases h
    · cases h

end SharWorkflow
