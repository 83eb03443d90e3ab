import Mathlib.Data.List.AList
import Mathlib.Data.List.Induction

/-!
# The data of the engine

The messages of `models.proto` that the engine reads and writes, under the names of the schema.
A Go map with string keys is an association list without duplicate keys (`GoMap`); its order of
entries carries no meaning, and code that ranges over a map built at run time asks the
environment for an order. A nil map, slice or byte string and an empty one are the same value,
as they are once a message has been marshalled and read back.

* `TrackingID`: the stack of ids that names a state and its callers (`common/id.go`).
* `Element`, `Process`, `Workflow`: a parsed workflow.
* `WorkflowState`: the token, published on every subject of the engine.
* `ProcessHistoryEntry`, `ProcessInstance`, `Execution`, `Gateway`, `Exchange`: stored objects.
-/

namespace SharWorkflow

/-- Encoded variables. -/
abbrev Bytes : Type := List UInt8

/-- A Go map with string keys. -/
abbrev GoMap (β : Type) : Type := AList fun _ : String => β

-- the instance of the library does not compute
instance {β : Type} [DecidableEq β] : DecidableEq (GoMap β) := fun a b =>
  decidable_of_iff (a.entries = b.entries) AList.ext_iff.symm

/-- The order in which the runtime ranges over the entries of a map. -/
structure MapOrder where
  entries : {β : Type} → GoMap β → List (Sigma fun _ : String => β)
  perm : ∀ {β : Type} (m : GoMap β), (entries m).Perm m.entries

/-- The order of the entries. -/
def MapOrder.listed : MapOrder := ⟨fun m => m.entries, fun _ => List.Perm.refl _⟩

/-- A map field of a message that was marshalled and read back. It is nil when it is empty. -/
def GoMap.field {β : Type} (m : GoMap β) : Option (GoMap β) :=
  if m.entries.isEmpty then none else some m

/-! ### Tracking ids -/

/-- An id stack that maintains the call stack, innermost id last. -/
abbrev TrackingID : Type := List String

namespace TrackingID

/-- The id of the caller back `gen` generations, empty when there is none. -/
def ancestor (t : TrackingID) (gen : Nat) : String :=
  if t.length > 0 ∧ t.length ≥ gen + 1 then t.getD (t.length - 1 - gen) "" else ""

/-- The current id. -/
def ID (t : TrackingID) : String := t.getLast?.getD ""

/-- The id of the caller. -/
def parentID (t : TrackingID) : String := ancestor t 1

/-- The stack without the current id. -/
def pop (t : TrackingID) : TrackingID := t.dropLast

/-- The stack with a new current id. -/
def push (t : TrackingID) (id : String) : TrackingID := t ++ [id]

@[simp]
theorem ID_push (t : TrackingID) (id : String) : (push t id).ID = id := by
  simp [push, ID]

@[simp]
theorem pop_push (t : TrackingID) (id : String) : (push t id).pop = t := by
  simp [push, pop]

@[simp]
theorem parentID_push (t : TrackingID) (id : String) : (push t id).parentID = t.ID := by
  cases t using List.reverseRecOn with
  | nil => simp [push, parentID, ancestor, ID]
  | append_singleton t x => simp [push, parentID, ancestor, ID, List.getD]

end TrackingID

/-! ### Enumerations -/

/-- The state of an execution, a process or an activity. -/
inductive CancellationState
  | executing
  | completed
  | terminated
  | errored
  | obsolete
  | compensating
  deriving DecidableEq, Repr, Inhabited

/-- The kind of a gateway. -/
inductive GatewayType
  | exclusive
  | inclusive
  | parallel
  deriving DecidableEq, Repr, Inhabited

/-- Whether a gateway splits or joins. -/
inductive GatewayDirection
  | divergent
  | convergent
  deriving DecidableEq, Repr, Inhabited

/-- The kind of a history entry, in the order of its number in the schema. -/
inductive ProcessHistoryType
  | processExecute
  | activityExecute
  | activityComplete
  | processSpawnSync
  | processComplete
  | processAbort
  | activityAbort
  | jobAbort
  | jobExecute
  | jobComplete
  | compensationCheckpoint
  deriving DecidableEq, Repr, Inhabited

/-- The element types of `common/element`. Any other type a definition names is passed through
by the engine. -/
inductive ElementType
  | callActivity
  | endEvent
  | compensateEndEvent
  | gateway
  | linkIntermediateCatchEvent
  | linkIntermediateThrowEvent
  | manualTask
  | messageIntermediateCatchEvent
  | messageIntermediateThrowEvent
  | serviceTask
  | startEvent
  | timedStartEvent
  | timerIntermediateCatchEvent
  | userTask
  | other (name : String)
  deriving DecidableEq, Repr

instance : Inhabited ElementType := ⟨.other ""⟩

/-! ### Workflow definitions -/

/-- An error that a workflow may raise or catch. -/
structure Error where
  id : String := ""
  name : String := ""
  code : String := ""
  deriving DecidableEq, Repr, Inhabited

/-- A possible transition to another element. -/
structure Target where
  id : String := ""
  conditions : List String := []
  target : String := ""
  deriving DecidableEq, Repr, Inhabited

/-- The transitions that leave an element. `defaultTarget` is an ordinal in the list, or -1. -/
structure Targets where
  target : List Target := []
  defaultTarget : Int := 0
  deriving DecidableEq, Repr, Inhabited

/-- What a gateway does, and the gateway it is paired with. -/
structure GatewaySpec where
  type : GatewayType := .exclusive
  direction : GatewayDirection := .divergent
  reciprocalId : String := ""
  fixedExpectations : List String := []
  deriving DecidableEq, Repr, Inhabited

/-- An error boundary event. -/
structure CatchError where
  id : String := ""
  errorId : String := ""
  target : String := ""
  outputTransform : GoMap String := ∅

/-- A boundary timer. -/
structure Timer where
  id : String := ""
  duration : String := ""
  target : String := ""
  outputTransform : GoMap String := ∅

/-- Whether the timer of a start event is relative or absolute. -/
inductive WorkflowTimerType
  | duration
  | fixed
  deriving DecidableEq, Repr, Inhabited

/-- The timer of a start event: an interval and how often it is repeated, or a fixed date. -/
structure WorkflowTimerDefinition where
  type : WorkflowTimerType := .duration
  value : Int64 := 0
  repeat_ : Int64 := 0
  dropEvents : Bool := false
  deriving DecidableEq, Repr, Inhabited

/-- What happens when a task has been tried for the last time. -/
inductive RetryErrorAction
  | pauseWorkflow
  | throwWorkflowError
  | setVariableValue
  | failWorkflow
  deriving DecidableEq, Repr, Inhabited

/-- What is done by default when the attempts have been exhausted. -/
structure DefaultRetryExceededBehaviour where
  action : RetryErrorAction := .pauseWorkflow
  variable_ : String := ""
  variableType : String := ""
  variableValue : String := ""
  errorCode : String := ""
  deriving DecidableEq, Repr, Inhabited

/-- How the delay between two attempts grows. -/
inductive RetryStrategy
  | linear
  | exponential
  deriving DecidableEq, Repr, Inhabited

/-- The retry behaviour of a task. -/
structure DefaultTaskRetry where
  number : Nat := 0
  strategy : RetryStrategy := .linear
  initMilli : Int64 := 0
  intervalMilli : Int64 := 0
  maxMilli : Int64 := 0
  defaultExceeded : Option DefaultRetryExceededBehaviour := none
  deriving DecidableEq, Repr, Inhabited

/-- An element of a process. -/
structure Element where
  id : String := ""
  name : String := ""
  type : ElementType := .other ""
  execute : String := ""
  outbound : Option Targets := none
  compensateWith : Option String := none
  msg : String := ""
  candidates : String := ""
  candidateGroups : String := ""
  errors : List CatchError := []
  error : Option Error := none
  inputTransform : GoMap String := ∅
  outputTransform : GoMap String := ∅
  boundaryTimer : List Timer := []
  gateway : Option GatewaySpec := none
  /-- whether the element has instructions for multi-instance execution -/
  iteration : Bool := false
  version : Option String := none
  isForCompensation : Bool := false
  retryBehaviour : Option DefaultTaskRetry := none
  timer : Option WorkflowTimerDefinition := none

instance : Inhabited Element := ⟨{}⟩

/-- A process. `elements` are its own elements in definition order and `subElements` those of
embedded sub-processes, depth first, which the engine only ever looks up by id. Each own element in
turn embeds as many of the latter as `embedded` says. -/
structure Process where
  id : String := ""
  elements : List Element := []
  subElements : List Element := []
  embedded : List Nat := []

instance : Inhabited Process := ⟨{}⟩

/-- A participant of a collaboration. -/
structure Participant where
  id : String := ""
  processId : String := ""
  deriving DecidableEq, Repr, Inhabited

/-- An element that receives a message: a catch event, or a start event of the process
`processIdToStart`. -/
structure MessageReceiver where
  id : String := ""
  processIdToStart : String := ""
  deriving DecidableEq, Repr, Inhabited

/-- All elements that receive a message. -/
structure MessageReceivers where
  messageReceiver : List MessageReceiver := []
  associatedWorkflowName : String := ""
  deriving DecidableEq, Repr, Inhabited

/-- A workflow definition. -/
structure Workflow where
  name : String := ""
  process : GoMap Process := ∅
  messages : List Element := []
  errors : List Error := []
  collaboration : Option (List Participant) := none
  messageReceivers : GoMap MessageReceivers := ∅
  autoLaunchHeaders : Bytes := []

instance : Inhabited Workflow := ⟨{}⟩

/-- `IndexProcessElements`: the elements by id, a later one replacing an earlier one. -/
def indexProcessElements (elements : List Element) (el : GoMap Element) : GoMap Element :=
  elements.foldl (fun el i => el.insert i.id i) el

/-- The elements of a process with those of its embedded sub-processes. -/
def Process.allElements (p : Process) : List Element := p.elements ++ p.subElements

/-- Each own item is followed by those that it embeds. -/
def depthFirst {α : Type} : List α → List Nat → List α → List α
  | [], _, sub => sub
  | e :: own, embedded, sub =>
    e :: (sub.take (embedded.headD 0) ++
      depthFirst own embedded.tail (sub.drop (embedded.headD 0)))

theorem depthFirst_perm {α : Type} (own : List α) (embedded : List Nat) (sub : List α) :
    (depthFirst own embedded sub).Perm (own ++ sub) := by
  induction own generalizing embedded sub with
  | nil => exact .refl _
  | cons e own ih =>
    refine .cons e (((ih _ _).append_left _).trans ?_)
    -- the embedded items move behind the own ones
    rw [← List.append_assoc]
    refine (List.perm_append_comm.append_right _).trans ?_
    rw [List.append_assoc, List.take_append_drop]
    exact .refl _

/-- The elements of a process with their positions in `allElements`, in the order in which they are
indexed. -/
def Process.indexOrder (p : Process) : List (Element × Nat) :=
  depthFirst p.elements.zipIdx p.embedded (p.subElements.zipIdx p.elements.length)

theorem Process.mem_indexOrder {p : Process} {e : Element} {i : Nat} :
    (e, i) ∈ p.indexOrder ↔ p.allElements[i]? = some e := by
  have hzip : p.elements.zipIdx ++ p.subElements.zipIdx p.elements.length =
      p.allElements.zipIdx := by
    rw [Process.allElements, List.zipIdx_append, Nat.zero_add]
  rw [Process.indexOrder, (depthFirst_perm ..).mem_iff, hzip, List.mk_mem_zipIdx_iff_getElem?]

/-- `ElementTable`: all elements of a workflow by id. The order of the entries is the order in which
the runtime ranges over the processes. -/
def elementTable (workflow : Workflow) : GoMap Element :=
  workflow.process.entries.foldl
    (fun el p => indexProcessElements (p.2.indexOrder.map Prod.fst) el) ∅

/-- The elements of one process of a workflow by id. -/
def processTable (p : Process) : GoMap Element :=
  indexProcessElements (p.indexOrder.map Prod.fst) ∅

/-- Every entry of the table is stored under its own id. -/
def Indexed (els : GoMap Element) : Prop := ∀ id el, els.lookup id = some el → el.id = id

theorem indexed_empty : Indexed ∅ := by
  intro id el h
  simp at h

theorem Indexed.insert {els : GoMap Element} (h : Indexed els) (i : Element) :
    Indexed (els.insert i.id i) := by
  intro id el hel
  by_cases hid : id = i.id
  · subst hid
    rw [AList.lookup_insert] at hel
    cases hel
    rfl
  · rw [AList.lookup_insert_ne hid] at hel
    exact h id el hel

theorem Indexed.indexProcessElements {els : GoMap Element} (h : Indexed els)
    (elements : List Element) : Indexed (indexProcessElements elements els) := by
  induction elements generalizing els with
  | nil => exact h
  | cons i rest ih => exact ih (h.insert i)

theorem indexed_processTable (p : Process) : Indexed (processTable p) :=
  indexed_empty.indexProcessElements _

/-- An element is found under its own id only. -/
theorem indexed_elementTable (wf : Workflow) : Indexed (elementTable wf) := by
  have hfold : ∀ (ps : List (Sigma fun _ : String => Process)) (els : GoMap Element), Indexed els →
      Indexed
        (ps.foldl (fun el p => indexProcessElements (p.2.indexOrder.map Prod.fst) el) els) := by
    intro ps
    induction ps with
    | nil => exact fun _ h => h
    | cons p ps ih => exact fun els h => ih _ (h.indexProcessElements _)
  exact hfold _ ∅ indexed_empty

/-- A link catch event of the given name. -/
def Element.isLinkCatch (link : String) (e : Element) : Bool :=
  e.type = .linkIntermediateCatchEvent ∧ e.execute = link

/-- The link catch events of a name in a table, in the given order. -/
def linkCatches (els : GoMap Element) (order : List String) (link : String) : List Element :=
  (order.filterMap els.lookup).filter (·.isLinkCatch link)

theorem mem_linkCatches {els : GoMap Element} {order : List String} {link : String} {c : Element} :
    c ∈ linkCatches els order link ↔
      (∃ id ∈ order, els.lookup id = some c) ∧ c.isLinkCatch link = true := by
  rw [linkCatches, List.mem_filter, List.mem_filterMap]

/-! ### States and stored objects -/

/-- The ids of the branches that a split has activated. -/
structure GatewayExpectations where
  expectedPaths : List String := []
  deriving DecidableEq, Repr, Inhabited

/-- The branches by which a token has been sent towards a join, newest last, each written as
`instance,branch`. -/
structure SatisfiesGateway where
  instanceTracking : List String := []
  deriving DecidableEq, Repr, Inhabited

/-- When a timer last fired, and how often it has. -/
structure WorkflowTimer where
  lastFired : Int := 0
  count : Int := 0
  deriving DecidableEq, Repr, Inhabited

/-- The position of a job in a compensation plan. -/
structure Compensation where
  step : Int := 0
  totalSteps : Int := 0
  forTrackingId : String := ""
  deriving DecidableEq, Repr, Inhabited

/-- The state of a token: what is published on the subjects of the engine and stored for a
job. -/
structure WorkflowState where
  workflowId : String := ""
  executionId : String := ""
  elementId : String := ""
  elementType : ElementType := .other ""
  id : TrackingID := []
  executeVersion : String := ""
  execute : Option String := none
  state : CancellationState := .executing
  condition : Option String := none
  unixTimeNano : Int := 0
  vars : Bytes := []
  owners : List String := []
  groups : List String := []
  error : Option Error := none
  timer : Option WorkflowTimer := none
  workflowName : String := ""
  processId : String := ""
  processInstanceId : String := ""
  satisfiesGatewayExpectation : GoMap SatisfiesGateway := ∅
  gatewayExpectations : GoMap GatewayExpectations := ∅
  compensation : Option Compensation := none
  elementName : String := ""
  previousActivity : String := ""
  previousElement : String := ""
  deriving DecidableEq

instance : Inhabited WorkflowState := ⟨{}⟩

/-- `DropStateParams`: removes any parameters unsafe to send across a state transition. -/
@[simps]
def dropStateParams (state : WorkflowState) : WorkflowState :=
  { state with
    execute := some ""
    executeVersion := ""
    condition := some ""
    owners := []
    groups := [] }

/-- An entry of the history of a process instance. -/
structure ProcessHistoryEntry where
  itemType : ProcessHistoryType := .processExecute
  workflowId : Option String := none
  executionId : Option String := none
  elementId : Option String := none
  elementName : Option String := none
  processInstanceId : Option String := none
  cancellationState : Option CancellationState := none
  vars : Bytes := []
  timer : Option WorkflowTimer := none
  error : Option Error := none
  unixTimeNano : Int := 0
  execute : Option String := none
  id : TrackingID := []
  compensating : Bool := false
  processId : String := ""
  satisfiesGatewayExpectation : GoMap SatisfiesGateway := ∅
  gatewayExpectations : GoMap GatewayExpectations := ∅
  workflowName : String := ""
  previousActivity : String := ""
  previousElement : String := ""
  deriving DecidableEq

instance : Inhabited ProcessHistoryEntry := ⟨{}⟩

/-- A running process. -/
structure ProcessInstance where
  processInstanceId : String := ""
  executionId : String := ""
  parentProcessId : Option String := none
  parentElementId : Option String := none
  workflowId : String := ""
  workflowName : String := ""
  processId : String := ""
  gatewayComplete : GoMap Bool := ∅
  headers : Bytes := []

instance : Inhabited ProcessInstance := ⟨{}⟩

/-- A running execution and its process instances. -/
structure Execution where
  executionId : String := ""
  workflowId : String := ""
  workflowName : String := ""
  processInstanceId : List String := []
  deriving DecidableEq, Repr, Inhabited

/-- What a join knows of the branches that have arrived. `vars` begins with the variables of
the split. -/
structure Gateway where
  metExpectations : GoMap String := ∅
  vars : List Bytes := []
  visits : Int32 := 0

instance : Inhabited Gateway := ⟨{}⟩

/-- The sending side of a message exchange. -/
structure Sender where
  vars : Bytes := []
  correlationKey : String := ""
  deriving DecidableEq, Repr, Inhabited

/-- A receiving side of a message exchange: the job that waits. -/
structure Receiver where
  id : String := ""
  correlationKey : String := ""
  deriving DecidableEq, Repr, Inhabited

/-- The meeting point of the sender and the receivers of a message. -/
structure Exchange where
  sender : Option Sender := none
  receivers : GoMap Receiver := ∅

instance : Inhabited Exchange := ⟨{}⟩

/-- A message that was sent. -/
structure MessageInstance where
  name : String := ""
  correlationKey : String := ""
  vars : Bytes := []
  deriving DecidableEq, Repr, Inhabited

/-- One version of a workflow: its id, the hash of its definition and its number. -/
structure WorkflowVersion where
  id : String := ""
  sha256 : Bytes := []
  number : Int32 := 0
  deriving DecidableEq, Repr, Inhabited

/-- The stored versions of a workflow, newest last. -/
structure WorkflowVersions where
  version : List WorkflowVersion := []
  isExecutionDisabled : Bool := false
  deriving DecidableEq, Repr, Inhabited

/-- A parameter of a task. -/
structure Parameter where
  name : String := ""
  type : String := ""
  collection : Bool := false
  mandatory : Bool := false
  validateExpr : String := ""
  example_ : String := ""
  deriving DecidableEq, Repr, Inhabited

/-- The parameters of a task. -/
structure TaskParameters where
  input : List Parameter := []
  output : List Parameter := []
  deriving DecidableEq, Repr, Inhabited

/-- What a mocked task does. -/
structure TaskMockBehaviours where
  errorCodeExpr : String := ""
  fatalErrorExpr : String := ""
  deriving DecidableEq, Repr, Inhabited

/-- The behaviour of a task. -/
structure TaskBehaviour where
  deprecated : Bool := false
  mock : Bool := false
  defaultRetry : Option DefaultTaskRetry := none
  estimatedMaxDuration : Nat := 0
  mockBehaviour : Option TaskMockBehaviours := none
  deriving DecidableEq, Repr, Inhabited

/-- The name of a task and its version. -/
structure TaskMetadata where
  type : String := ""
  version : String := ""
  deriving DecidableEq, Repr, Inhabited

/-- A task specification. -/
structure TaskSpec where
  version : String := ""
  kind : String := ""
  metadata : Option TaskMetadata := none
  behaviour : Option TaskBehaviour := none
  parameters : Option TaskParameters := none
  deriving DecidableEq, Repr, Inhabited

/-- What to do about a workflow that cannot continue. -/
inductive HandlingStrategy
  | pause
  | tearDown
  deriving DecidableEq, Repr, Inhabited

/-- A workflow that cannot continue. -/
structure FatalError where
  handlingStrategy : HandlingStrategy := .pause
  workflowState : WorkflowState := {}
  deriving DecidableEq

instance : Inhabited FatalError := ⟨{}⟩

end SharWorkflow
