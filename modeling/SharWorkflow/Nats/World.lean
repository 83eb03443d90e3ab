import SharWorkflow.Concurrent.Safety
import SharWorkflow.Model.Errors
import Mathlib.Data.List.Dedup
import Mathlib.Algebra.Order.BigOperators.Group.List
import Mathlib.Algebra.Order.Group.Nat

/-!
# The outside of the engine

The calls a handler makes, and what they do: the key-value buckets of a namespace, the message
stream, the cache of workflow definitions, fresh ids and the clock.

* `Bucket`, `Loc`, `Slot`: a location of the store. Each key carries a revision that every write
  and every deletion moves on; `update` writes only when the revision is still the given one.
* `Subject`, `Msg`: what is published. Each publication carries a message id of its own, so the
  stream never drops one as a duplicate, and a publication is one entry of the log.
* `Op`, `Ans`: the calls and their answers.
* `World`, `World.env`: the state behind the calls and their effect. `World.env F` lets exactly
  the calls in `F` fail; a call that fails has no effect.
* `Choice`, `World.pick`: the executable counterpart of `World.env`.
-/

namespace SharWorkflow

open Concurrent

variable (w : World) (durable : String)

/-! ### The key-value store -/

/-- The buckets that the modelled functions use. -/
inductive Bucket
  | wfExecution
  | wfProcessInstance
  | wfUserTasks
  | wfTaskSpec
  | wfTaskSpecVer
  | wf
  | wfVersion
  | job
  | ownerName
  | ownerID
  | wfGateway
  | wfHistory
  | wfMsgTypes
  | wfProcess
  | wfMessages
  | wfFatalError
  | wfTracking
  | wfClientTask
  deriving DecidableEq, Repr

/-- The objects a bucket holds. -/
abbrev Bucket.Val : Bucket → Type
  | wfExecution => Execution
  | wfProcessInstance => ProcessInstance
  | wfUserTasks => List String
  | wfTaskSpec => TaskSpec
  | wfTaskSpecVer => List String
  | wf => Workflow
  | wfVersion => WorkflowVersions
  | job => WorkflowState
  | ownerName => String
  | ownerID => String
  | wfGateway => Gateway
  | wfHistory => ProcessHistoryEntry
  | wfMsgTypes => MessageReceivers
  | wfProcess => String
  | wfMessages => Exchange
  | wfFatalError => FatalError
  | wfTracking => WorkflowState
  | wfClientTask => String

/-- The message with no field set, whose encoding is empty. -/
def Bucket.zero : (b : Bucket) → b.Val
  | wfExecution => ({} : Execution)
  | wfProcessInstance => ({} : ProcessInstance)
  | wfUserTasks => ([] : List String)
  | wfTaskSpec => ({} : TaskSpec)
  | wfTaskSpecVer => ([] : List String)
  | wf => ({} : Workflow)
  | wfVersion => ({} : WorkflowVersions)
  | job => ({} : WorkflowState)
  | ownerName => ""
  | ownerID => ""
  | wfGateway => ({} : Gateway)
  | wfHistory => ({} : ProcessHistoryEntry)
  | wfMsgTypes => ({} : MessageReceivers)
  | wfProcess => ""
  | wfMessages => ({} : Exchange)
  | wfFatalError => ({} : FatalError)
  | wfTracking => ({} : WorkflowState)
  | wfClientTask => ""

/-- The name of a bucket, to which the namespace is prefixed. -/
def Bucket.name : Bucket → String
  | wfExecution => "WORKFLOW_EXECUTION"
  | wfProcessInstance => "WORKFLOW_PROCESS"
  | wfUserTasks => "WORKFLOW_USERTASK"
  | wfTaskSpec => "WORKFLOW_TSKSPEC"
  | wfTaskSpecVer => "WORKFLOW_TSPECVER"
  | wf => "WORKFLOW_DEF"
  | wfVersion => "WORKFLOW_VERSION"
  | job => "WORKFLOW_JOB"
  | ownerName => "WORKFLOW_OWNERNAME"
  | ownerID => "WORKFLOW_OWNERID"
  | wfGateway => "WORKFLOW_GATEWAY"
  | wfHistory => "WORKFLOW_HISTORY"
  | wfMsgTypes => "WORKFLOW_MSGTYPES"
  | wfProcess => "WORKFLOW_PROCESS_MAPPING"
  | wfMessages => "WORKFLOW_MESSAGES"
  | wfFatalError => "WORKFLOW_FATAL_ERROR"
  | wfTracking => "WORKFLOW_TRACKING"
  | wfClientTask => "WORKFLOW_CLIENTTASK"

/-- A key of a bucket of a namespace. -/
structure Loc where
  ns : String
  bucket : Bucket
  key : String
  deriving DecidableEq, Repr

/-- The type of the objects at a location. -/
abbrev Loc.Val (l : Loc) : Type := l.bucket.Val

/-- What the store knows of a key: its object, if there is one, and the revision of its last
write or deletion. -/
structure Slot (V : Type) where
  value : Option V := none
  revision : Nat := 0

/-- The slot after a write. -/
def Slot.put {V : Type} (slot : Slot V) (v : V) : Slot V := ⟨some v, slot.revision + 1⟩

/-- The slot after a deletion, which leaves a marker with a revision of its own. -/
def Slot.clear {V : Type} (slot : Slot V) : Slot V := ⟨none, slot.revision + 1⟩

@[simp] theorem Slot.put_value {V : Type} (slot : Slot V) (v : V) :
    (slot.put v).value = some v := rfl

@[simp] theorem Slot.put_revision {V : Type} (slot : Slot V) (v : V) :
    (slot.put v).revision = slot.revision + 1 := rfl

@[simp] theorem Slot.clear_value {V : Type} (slot : Slot V) : slot.clear.value = none := rfl

@[simp] theorem Slot.clear_revision {V : Type} (slot : Slot V) :
    slot.clear.revision = slot.revision + 1 := rfl

/-- An entry as `Get` returns it. `isNil` says that its value is the nil byte string, which is
possible only for the message with no field set. -/
structure Entry (V : Type) where
  value : V
  isNil : Bool := false
  revision : Nat

/-- The store: a slot for every location. -/
abbrev Store : Type := (l : Loc) → Slot l.Val

/-! ### The message stream -/

/-- The subjects of `server/messages`, without the namespace. The execution of a service task
and the sending of a message carry the suffix that routes them to a client. -/
inductive Subject
  | traversalExecute
  | traversalComplete
  | activityExecute
  | activityComplete
  | activityAbort
  | elementTimedExecute
  | timedExecute
  | executionExecute
  | executionComplete
  | executionAbort
  | executionTerminated
  | processExecute
  | processComplete
  | processTerminated
  | processCompensate
  | jobServiceTaskExecute (uid : String)
  | jobServiceTaskComplete
  | jobServiceTaskAbort
  | jobUserTaskExecute
  | jobUserTaskComplete
  | jobUserTaskAbort
  | jobManualTaskExecute
  | jobManualTaskComplete
  | jobManualTaskAbort
  | jobSendMessageExecute (suffix : String)
  | jobSendMessageComplete
  | jobAwaitMessageExecute
  | jobAwaitMessageComplete
  | jobAwaitMessageAbort
  | jobLaunchExecute
  | jobLaunchComplete
  | jobTimerTaskExecute
  | jobTimerTaskComplete
  | jobGatewayTaskActivate
  | jobGatewayTaskExecute
  | jobGatewayTaskReEnter
  | jobGatewayTaskAwait
  | jobGatewayTaskAbort
  | jobRetry
  | message
  | compensate (id : String)
  | systemProcessFatalError
  | systemWorkflowDisableLaunchAttempted
  | systemHistoryArchive
  | systemTaskCreate
  | systemTaskUpdate
  deriving DecidableEq, Repr

/-- The body of a message. -/
inductive Payload
  | state (state : WorkflowState)
  | message (instance_ : MessageInstance)
  | fatalError (e : FatalError)
  | planEntry (step steps : Nat) (item : String)
  | disableLaunchAttempted (workflowName : String)
  | historyEntry (key : String) (entry : ProcessHistoryEntry)
  | taskSpec (spec : TaskSpec)
  deriving DecidableEq

/-- A published message. `embargo` is the time, in nanoseconds, before which a consumer hands
the message back. -/
structure Msg where
  ns : String
  subject : Subject
  payload : Payload
  embargo : Int := 0
  deriving DecidableEq

/-- An entry of a compensation plan: its position, the length of the plan, and the key of the
history entry of the job that is to be compensated. -/
structure PlanEntry where
  step : Nat
  steps : Nat
  item : String
  deriving DecidableEq, Repr

/-! ### Calls -/

/-- The calls to the outside. -/
inductive Op
  | kvsFor (ns : String)
  | get (l : Loc)
  | put (l : Loc) (v : l.Val)
  | create (l : Loc) (v : l.Val)
  | update (l : Loc) (v : l.Val) (revision : Nat)
  | delete (l : Loc)
  | publish (m : Msg)
  | newId
  | now
  | mapOrder (keys : List String)
  | cacheGet (workflowId : String)
  | cacheSet (workflowId : String) (workflow : Workflow)
  | searchKeys (ns : String) (b : Bucket) (pre : String)
  | keys (ns : String) (b : Bucket)
  | createConsumer (durable : String) (filter : Subject)
  | fetch (durable : String) (filter : Subject)
  | ackEntry (durable : String)
  | ensureBucket (name : String)
  | mark (function : String)
  | panic

/-- The answers to a call. `mapOrder` answers with the order in which the runtime ranges over a
map with the given keys; `mark` records the call of a function in the trace and does nothing;
`panic` is never answered. -/
def Ans : Op → Type
  | .kvsFor _ => Except Err Unit
  | .get l => Except Err (Entry l.Val)
  | .put _ _ => Except Err Unit
  | .create _ _ => Except Err Unit
  | .update _ _ _ => Except Err Unit
  | .delete _ => Except Err Unit
  | .publish _ => Except Err Unit
  | .newId => String
  | .now => Int
  | .mapOrder _ => List String
  | .cacheGet _ => Option Workflow
  | .cacheSet _ _ => Unit
  | .searchKeys _ _ _ => Except Err (List String)
  | .keys _ _ => Except Err (List String)
  | .createConsumer _ _ => Except Err Unit
  | .fetch _ _ => Except Err (Option PlanEntry)
  | .ackEntry _ => Except Err Unit
  | .ensureBucket _ => Except Err Unit
  | .mark _ => Unit
  | .panic => Empty

/-- The state behind the calls: the store and the locations that were ever written, the published
messages with the newest first, the ids issued so far, the cache of workflow definitions, and for
each durable consumer of a compensation plan the number of entries that were acknowledged. -/
structure World where
  store : Store := fun _ => {}
  written : List Loc := []
  log : List Msg := []
  ids : List String := []
  cache : String → Option Workflow := fun _ => none
  consumers : String → Option Nat := fun _ => none

/-- The tokens of a subject, or of a key, which is a part of one. -/
def subjectTokens (subject : String) : List (List Char) := subject.toList.splitOn '.'

/-- The tokens begin like the pattern, and go on. A star stands for any token. -/
def tokensBelow : List (List Char) → List (List Char) → Bool
  | [], rest => !rest.isEmpty
  | _ :: _, [] => false
  | p :: pattern, token :: rest => (p == ['*'] || p == token) && tokensBelow pattern rest

/-- The key matches the subject `pre.>`. -/
def isBelow (pre key : String) : Bool := tokensBelow (subjectTokens pre) (subjectTokens key)

namespace World

/-- The world after a write at `l`. -/
def put (l : Loc) (v : l.Val) : World :=
  { w with
    store := Function.update w.store l ((w.store l).put v)
    written := l :: w.written }

/-- The world after a deletion at `l`. -/
def clear (l : Loc) : World :=
  { w with store := Function.update w.store l (w.store l).clear }

/-- The world after a publication. -/
def publish (m : Msg) : World := { w with log := m :: w.log }

/-- The object stored at `l`. -/
def value (l : Loc) : Option l.Val := (w.store l).value

/-- The revision of `l`. -/
def revision (l : Loc) : Nat := (w.store l).revision

/-- The keys of a bucket below a prefix in ascending order, deleted ones included. -/
def keysBelow (ns : String) (b : Bucket) (pre : String) : List String :=
  let found := w.written.filter fun l => l.ns = ns ∧ l.bucket = b ∧ isBelow pre l.key
  (found.map Loc.key).dedup.mergeSort fun a b => a ≤ b

/-- The keys of a bucket, deleted ones excluded. -/
def keysIn (ns : String) (b : Bucket) : List String :=
  let found := w.written.filter fun l => l.ns = ns ∧ l.bucket = b ∧ (w.value l).isSome
  (found.map Loc.key).dedup

/-- The world after a durable consumer was created, unless it was there before. -/
def createConsumer : World :=
  { w with consumers := Function.update w.consumers durable ((w.consumers durable).or (some 0)) }

/-- The entries of the compensation plan on a subject, in the order of their publication. -/
def planEntries (filter : Subject) : List PlanEntry :=
  w.log.reverse.filterMap fun m =>
    match m.payload with
    | .planEntry step steps item => if m.subject = filter then some ⟨step, steps, item⟩ else none
    | _ => none

/-- What a durable consumer hands out next, if there is anything: the first entry of the subject
that was not acknowledged. -/
def nextEntry (filter : Subject) : Except Err (Option PlanEntry) :=
  match w.consumers durable with
  | none => .error (.nats "consumer not found")
  | some n => .ok (w.planEntries filter)[n]?

/-- The world after an entry was acknowledged. -/
def ackEntry : World :=
  { w with consumers := Function.update w.consumers durable ((w.consumers durable).map (· + 1)) }

/-- A call that is allowed to fail has failed. -/
def Failed (F : Op → Prop) {α : Type} (o : Op) (r : Except Err α) : Prop :=
  F o ∧ ∃ text, r = .error (.nats text)

/-- A fresh id is new and is made of letters and digits only. -/
def FreshId (id : String) : Prop :=
  id ∉ w.ids ∧ id ≠ "" ∧ ',' ∉ id.toList

/-- **The effect of the calls.** The calls in `F` may fail, without any effect. -/
def env (F : Op → Prop) : Environment Op Ans World
  | .kvsFor ns, w, r, w' => w' = w ∧ (r = .ok () ∨ Failed F (.kvsFor ns) r)
  | .get l, w, r, w' => w' = w ∧
      ((w.value l = none ∧ r = .error (.sentinel .keyNotFound)) ∨
        (∃ v isNil, w.value l = some v ∧ (isNil = true → v = l.bucket.zero) ∧
          r = .ok ⟨v, isNil, w.revision l⟩) ∨
        Failed F (.get l) r)
  | .put l v, w, r, w' => (r = .ok () ∧ w' = w.put l v) ∨ (w' = w ∧ Failed F (.put l v) r)
  | .create l v, w, r, w' =>
      (w.value l = none ∧ r = .ok () ∧ w' = w.put l v) ∨
        (w.value l ≠ none ∧ w' = w ∧ r = .error (.sentinel .keyExists)) ∨
        (w' = w ∧ Failed F (.create l v) r)
  | .update l v rev, w, r, w' =>
      (w.revision l = rev ∧ r = .ok () ∧ w' = w.put l v) ∨
        (w.revision l ≠ rev ∧ w' = w ∧ r = .error (.sentinel .wrongLastSequence)) ∨
        (w' = w ∧ Failed F (.update l v rev) r)
  | .delete l, w, r, w' => (r = .ok () ∧ w' = w.clear l) ∨ (w' = w ∧ Failed F (.delete l) r)
  | .publish m, w, r, w' => (r = .ok () ∧ w' = w.publish m) ∨ (w' = w ∧ Failed F (.publish m) r)
  | .newId, w, r, w' => w.FreshId r ∧ w' = { w with ids := r :: w.ids }
  | .now, w, _, w' => w' = w
  | .mapOrder keys, w, r, w' => w' = w ∧ r.Perm keys
  | .cacheGet key, w, r, w' => w' = w ∧ (r = none ∨ r = w.cache key)
  | .cacheSet key wf, w, _, w' =>
      w' = w ∨ w' = { w with cache := Function.update w.cache key (some wf) }
  | .searchKeys ns b pre, w, r, w' =>
      w' = w ∧ (r = .ok (w.keysBelow ns b pre) ∨ Failed F (.searchKeys ns b pre) r)
  | .keys ns b, w, r, w' => w' = w ∧
      ((w.keysIn ns b = [] ∧ r = .error (.sentinel .noKeysFound)) ∨
        (∃ keys, w.keysIn ns b ≠ [] ∧ keys.Perm (w.keysIn ns b) ∧ r = .ok keys) ∨
        Failed F (.keys ns b) r)
  | .createConsumer durable filter, w, r, w' =>
      (r = .ok () ∧ w' = w.createConsumer durable) ∨
        (w' = w ∧ Failed F (.createConsumer durable filter) r)
  | .fetch durable filter, w, r, w' =>
      w' = w ∧ (r = w.nextEntry durable filter ∨ Failed F (.fetch durable filter) r)
  | .ackEntry durable, w, r, w' =>
      (r = .ok () ∧ w' = w.ackEntry durable) ∨ (w' = w ∧ Failed F (.ackEntry durable) r)
  | .ensureBucket name, w, r, w' => w' = w ∧ (r = .ok () ∨ Failed F (.ensureBucket name) r)
  | .mark _, w, _, w' => w' = w
  | .panic, _, r, _ => r.elim

/-- No call fails. -/
def noFault : Op → Prop := fun _ => False

/-- Any call may fail. -/
def anyFault : Op → Prop := fun _ => True

@[simp] theorem put_value_self (w : World) (l : Loc) (v : l.Val) :
    (w.put l v).value l = some v := by
  simp [put, value]

variable {l l' : Loc}

@[simp] theorem put_value_of_ne (w : World) (v : l.Val) (h : l' ≠ l) :
    (w.put l v).value l' = w.value l' := by
  simp [put, value, h]

@[simp] theorem put_revision_self (w : World) (l : Loc) (v : l.Val) :
    (w.put l v).revision l = w.revision l + 1 := by
  simp [put, revision]

@[simp] theorem put_revision_of_ne (w : World) (v : l.Val) (h : l' ≠ l) :
    (w.put l v).revision l' = w.revision l' := by
  simp [put, revision, h]

@[simp] theorem clear_value_self (w : World) (l : Loc) : (w.clear l).value l = none := by
  simp [clear, value]

@[simp] theorem clear_value_of_ne (w : World) (h : l' ≠ l) : (w.clear l).value l' = w.value l' := by
  simp [clear, value, h]

@[simp] theorem clear_revision_self (w : World) (l : Loc) :
    (w.clear l).revision l = w.revision l + 1 := by
  simp [clear, revision]

@[simp] theorem clear_revision_of_ne (w : World) (h : l' ≠ l) :
    (w.clear l).revision l' = w.revision l' := by
  simp [clear, revision, h]

@[simp] theorem publish_value (w : World) (m : Msg) (l : Loc) :
    (w.publish m).value l = w.value l := rfl

end World

namespace World

/-- There are always fresh ids. -/
theorem exists_freshId (w : World) : ∃ id, w.FreshId id := by
  -- longer than every id issued so far
  let n := (w.ids.map String.length).sum + 1
  refine ⟨String.ofList (List.replicate n 'a'), fun hmem => ?_, fun h => ?_, ?_⟩
  · have hle := List.single_le_sum (l := w.ids.map String.length) (fun _ _ => Nat.zero_le _) _
      (List.mem_map_of_mem hmem)
    simp only [String.length_ofList, List.length_replicate] at hle
    omega
  · have hlen := congrArg String.length h
    simp [n] at hlen
  · simp [n]

end World

/-! ### Executing calls -/

/-- How the environment answers a call. -/
inductive Choice
  /-- the call succeeds -/
  | ok
  /-- the call fails -/
  | fail
  /-- the fresh id -/
  | id (id : String)
  /-- the time -/
  | time (t : Int)
  /-- the order in which a map is ranged over -/
  | order (keys : List String)
  /-- the cache holds the definition -/
  | hit

/-- The id that is chosen, or else a numbered one. -/
def Choice.newId : Choice → String
  | id chosen => chosen
  | _ => "id" ++ toString w.ids.length

namespace World

/-- The answer to a call that fails, for the calls that can. -/
def failure : (o : Op) → Option (Ans o × World)
  | .kvsFor _ => some (.error (.nats "failed"), w)
  | .get _ => some (.error (.nats "failed"), w)
  | .put _ _ => some (.error (.nats "failed"), w)
  | .create _ _ => some (.error (.nats "failed"), w)
  | .update _ _ _ => some (.error (.nats "failed"), w)
  | .delete _ => some (.error (.nats "failed"), w)
  | .publish _ => some (.error (.nats "failed"), w)
  | .searchKeys _ _ _ => some (.error (.nats "failed"), w)
  | .keys _ _ => some (.error (.nats "failed"), w)
  | .createConsumer _ _ => some (.error (.nats "failed"), w)
  | .fetch _ _ => some (.error (.nats "failed"), w)
  | .ackEntry _ => some (.error (.nats "failed"), w)
  | .ensureBucket _ => some (.error (.nats "failed"), w)
  | _ => none

/-- The answer to a call that does not fail, with the choice `x` where there is one. -/
def success (x : Choice) (w : World) : (o : Op) → Option (Ans o × World)
  | .kvsFor _ => some (.ok (), w)
  | .get l =>
    match w.value l with
    | none => some (.error (.sentinel .keyNotFound), w)
    | some v => some (.ok ⟨v, false, w.revision l⟩, w)
  | .put l v => some (.ok (), w.put l v)
  | .create l v =>
    match w.value l with
    | none => some (.ok (), w.put l v)
    | some _ => some (.error (.sentinel .keyExists), w)
  | .update l v rev =>
    if w.revision l = rev then some (.ok (), w.put l v)
    else some (.error (.sentinel .wrongLastSequence), w)
  | .delete l => some (.ok (), w.clear l)
  | .publish m => some (.ok (), w.publish m)
  | .newId =>
    if x.newId w ∉ w.ids ∧ x.newId w ≠ "" ∧ ',' ∉ (x.newId w).toList then
      some (x.newId w, { w with ids := x.newId w :: w.ids })
    else none
  | .now =>
    match x with
    | .time t => some (t, w)
    | _ => some ((0 : Int), w)
  | .mapOrder keys =>
    match x with
    | .order r => if r.Perm keys then some (r, w) else none
    | _ => some (keys, w)
  | .cacheGet key =>
    match x with
    | .hit => some (w.cache key, w)
    | _ => some (none, w)
  | .cacheSet _ _ => some ((), w)
  | .searchKeys ns b pre => some (.ok (w.keysBelow ns b pre), w)
  | .keys ns b =>
    if w.keysIn ns b = [] then some (.error (.sentinel .noKeysFound), w)
    else
      match x with
      | .order r => if r.Perm (w.keysIn ns b) then some (.ok r, w) else none
      | _ => some (.ok (w.keysIn ns b), w)
  | .createConsumer durable _ => some (.ok (), w.createConsumer durable)
  | .fetch durable filter => some (w.nextEntry durable filter, w)
  | .ackEntry durable => some (.ok (), w.ackEntry durable)
  | .ensureBucket _ => some (.ok (), w)
  | .mark _ => some ((), w)
  | .panic => none

/-- The executable environment. -/
def pick (F : Op → Prop) [DecidablePred F] (x : Choice) (o : Op) (w : World) :
    Option (Ans o × World) :=
  match x with
  | .fail => if F o then failure w o else none
  | x => success x w o

instance : DecidablePred noFault := fun _ => isFalse id

instance : DecidablePred anyFault := fun _ => isTrue trivial

variable {F : Op → Prop}

theorem env_of_failure {o : Op} {w w' : World} {r : Ans o} (hF : F o)
    (h : failure w o = some (r, w')) : env F o w r w' := by
  cases o <;> cases h
  case kvsFor => exact ⟨rfl, .inr ⟨hF, _, rfl⟩⟩
  case get => exact ⟨rfl, .inr (.inr ⟨hF, _, rfl⟩)⟩
  case put => exact .inr ⟨rfl, hF, _, rfl⟩
  case create => exact .inr (.inr ⟨rfl, hF, _, rfl⟩)
  case update => exact .inr (.inr ⟨rfl, hF, _, rfl⟩)
  case delete => exact .inr ⟨rfl, hF, _, rfl⟩
  case publish => exact .inr ⟨rfl, hF, _, rfl⟩
  case searchKeys => exact ⟨rfl, .inr ⟨hF, _, rfl⟩⟩
  case keys => exact ⟨rfl, .inr (.inr ⟨hF, _, rfl⟩)⟩
  case createConsumer => exact .inr ⟨rfl, hF, _, rfl⟩
  case fetch => exact ⟨rfl, .inr ⟨hF, _, rfl⟩⟩
  case ackEntry => exact .inr ⟨rfl, hF, _, rfl⟩
  case ensureBucket => exact ⟨rfl, .inr ⟨hF, _, rfl⟩⟩

theorem env_of_success {x : Choice} {o : Op} {w w' : World} {r : Ans o}
    (h : success x w o = some (r, w')) : env F o w r w' := by
  cases o with
  | get l =>
    simp only [success] at h
    split at h <;> cases h
    · exact ⟨rfl, .inl ⟨‹_›, rfl⟩⟩
    · exact ⟨rfl, .inr (.inl ⟨_, false, ‹_›, nofun, rfl⟩)⟩
  | create l v =>
    simp only [success] at h
    split at h <;> cases h
    · exact .inl ⟨‹_›, rfl, rfl⟩
    · rename_i hv
      exact .inr (.inl ⟨by simp [hv], rfl, rfl⟩)
  | update l v rev =>
    simp only [success] at h
    split at h <;> cases h
    · exact .inl ⟨‹_›, rfl, rfl⟩
    · exact .inr (.inl ⟨‹_›, rfl, rfl⟩)
  | newId =>
    simp only [success] at h
    split at h <;> cases h
    exact ⟨‹_›, rfl⟩
  | now => cases x <;> cases h <;> rfl
  | mapOrder keys =>
    simp only [success] at h
    split at h
    · split at h <;> cases h
      exact ⟨rfl, ‹_›⟩
    · cases h
      exact ⟨rfl, .refl _⟩
  | cacheGet key =>
    cases x <;> cases h
    case hit.refl => exact ⟨rfl, .inr rfl⟩
    all_goals exact ⟨rfl, .inl rfl⟩
  | kvsFor ns => cases h; exact ⟨rfl, .inl rfl⟩
  | put l v => cases h; exact .inl ⟨rfl, rfl⟩
  | delete l => cases h; exact .inl ⟨rfl, rfl⟩
  | publish m => cases h; exact .inl ⟨rfl, rfl⟩
  | cacheSet key wf => cases h; exact .inl rfl
  | searchKeys ns b pre => cases h; exact ⟨rfl, .inl rfl⟩
  | keys ns b =>
    simp only [success] at h
    split at h
    · cases h
      exact ⟨rfl, .inl ⟨‹_›, rfl⟩⟩
    · split at h
      · split at h <;> cases h
        exact ⟨rfl, .inr (.inl ⟨_, ‹_›, ‹_›, rfl⟩)⟩
      · cases h
        exact ⟨rfl, .inr (.inl ⟨_, ‹_›, .refl _, rfl⟩)⟩
  | createConsumer durable filter => cases h; exact .inl ⟨rfl, rfl⟩
  | fetch durable filter => cases h; exact ⟨rfl, .inl rfl⟩
  | ackEntry durable => cases h; exact .inl ⟨rfl, rfl⟩
  | ensureBucket name => cases h; exact ⟨rfl, .inl rfl⟩
  | mark f => cases h; rfl
  | panic => cases h

/-- Every call but a panic has an answer. -/
theorem exists_answer (F : Op → Prop) (o : Op) (w : World) (h : o ≠ .panic) :
    ∃ r w', env F o w r w' := by
  have hsuccess : ∃ x, (success x w o).isSome = true := by
    cases o with
    | get | create | update | keys => exact ⟨.ok, by simp only [success]; split <;> rfl⟩
    | newId =>
      obtain ⟨id, hid⟩ := w.exists_freshId
      exact ⟨.id id, congrArg Option.isSome (if_pos hid)⟩
    | panic => exact absurd rfl h
    | _ => exact ⟨.ok, rfl⟩
  obtain ⟨x, hx⟩ := hsuccess
  obtain ⟨⟨r, w'⟩, hr⟩ := Option.isSome_iff_exists.1 hx
  exact ⟨r, w', env_of_success hr⟩

/-- Every choice of `pick` is one the environment allows. -/
theorem env_of_pick [DecidablePred F] (x : Choice) (o : Op) (w : World)
    (r : Ans o) (w' : World) (h : pick F x o w = some (r, w')) : env F o w r w' := by
  unfold pick at h
  split at h
  · split at h
    · exact env_of_failure ‹_› h
    · cases h
  · exact env_of_success h

/-- An instance of the workflow is running in a namespace. -/
def running (w : World) (ns : String) (wf : Workflow) : World :=
  ((w.put ⟨ns, .wfExecution, "execution"⟩
    { executionId := "execution", workflowId := "workflow", processInstanceId := ["instance"] }).put
    ⟨ns, .wfProcessInstance, "instance"⟩
    { processInstanceId := "instance", executionId := "execution", workflowId := "workflow" }).put
    ⟨ns, .wf, "workflow"⟩ wf

/-- A schedule that can be executed and leads to a configuration that meets `Q`. -/
theorem exists_run_of_reaches {ι α : Type} [DecidableEq ι] (F : Op → Prop) [DecidablePred F]
    (c : Config ι Op Ans World α) (sched : List (ι × Choice))
    (Q : Config ι Op Ans World α → Prop) [DecidablePred Q]
    (h : c.reaches (pick F) sched (fun c => Q c) = true) : ∃ c', Run (env F) c c' ∧ Q c' :=
  Config.exists_run_of_reaches env_of_pick h

end World

end SharWorkflow
