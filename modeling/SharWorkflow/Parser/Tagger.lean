import SharWorkflow.Parser.Parsed

/-!
# The tagger

`tagger.go`: once a definition has been parsed, `tagWorkflow` gives every gateway its **direction**,
from the number of flows into and out of it, and pairs every join with the split that opens it. The
split is found by a search against the flows (`recurseRecip`) that counts the joins of its own type
that it passes and takes one off at each split.

The tagger works on pointers: two pointers are compared, and an element is changed through its
pointer while a map of ids leads to the pointers. A **pointer** here is the position of an element
in the list of all elements of the process. A set of strings is a list without duplicates. The order
in which the runtime ranges over the processes decides which error is returned, and nothing else.
-/

namespace SharWorkflow

variable (eleIdReferences : GoMap (List String)) (fuel : Nat) (process : Process)
  (els : List Element)

/-! ### References -/

/-- The ids of the elements that the flows of an element lead to. -/
def Element.targetIds (el : Element) : List String :=
  (el.outbound.map fun outbound => outbound.target.map (·.target)).getD []

/-- The flows of one element are entered. -/
def addReferences (eleIdReferencedBy : GoMap (List String)) (el : Element) : GoMap (List String) :=
  el.targetIds.foldl (fun refs elementId =>
    refs.insert elementId ((refs.lookup elementId).getD [] ++ [el.id])) eleIdReferencedBy

/-- `getElementIdReferences`: for each id the ids of the elements with a flow to it, one for each
flow. -/
def getElementIdReferences : GoMap (List String) :=
  process.elements.foldl addReferences ∅

/-- `IndexProcessElements`: the pointers to the elements by id. -/
def indexPointers : GoMap Nat :=
  process.indexOrder.foldl (fun els i => els.insert i.1.id i.2) ∅

/-! ### Directions -/

/-- The direction of a gateway with so many flows into and out of it. -/
def directionOf (numIn numOut : Nat) : Option GatewayDirection :=
  if numIn = 1 ∧ numOut > 1 then some .divergent
  else if numIn > 1 ∧ numOut = 1 then some .convergent
  else none

/-- The first loop of `tagGateways`, for one element. -/
def tagDirection (el : Element) : Parsed Element :=
  if el.type = .gateway then
    let numIn := ((eleIdReferences.lookup el.id).getD []).length
    let numOut := (el.outbound.map fun outbound => outbound.target.length).getD 0
    match directionOf numIn numOut with
    | some direction => do
      let gateway ← Parsed.deref el.gateway
      return { el with gateway := some { gateway with direction := direction } }
    | none =>
      .failed (.wrap "cannot discern gateway type due to ambiguous inputs and outputs"
        (.text "unsupported gateway type"))
  else return el

/-- The first loop of `tagGateways`: the direction check. -/
def tagDirections : Parsed Process := do
  let elements ← process.elements.mapM (tagDirection (getElementIdReferences process))
  return { process with elements := elements }

/-! ### The search for the split of a join -/

/-- The entry that the search makes for a path that leads to no gateway. -/
def nullId : String := "[<<null>>]"

/-- The count at an element, on the way back from the join `gw`; without a count the search ends
there. -/
def enterElement (gw el stack : Nat) : Parsed (Option Nat) := do
  let e ← Parsed.deref els[el]?
  if gw ≠ el ∧ e.type = .gateway then do
    let join ← Parsed.deref (els[gw]?.bind (·.gateway))
    let gateway ← Parsed.deref e.gateway
    if join.type = gateway.type then
      match gateway.direction with
      | .convergent => return some (stack + 1)
      | .divergent => return if stack = 0 then none else some (stack - 1)
    else return some stack
  else return some stack

/-- `recurseRecip`. -/
def recurseRecip (els : List Element) (eleIdReferences : GoMap (List String)) (eleIndex : GoMap Nat)
    (gw : Nat) : Nat → Nat → Nat → List String → Parsed (List String)
  | 0, _, _, _ => .unfinished
  | fuel + 1, el, stack, result => do
    let entered ← enterElement els gw el stack
    let e ← Parsed.deref els[el]?
    match entered with
    | none => return result.insert e.id
    | some stack =>
      match eleIdReferences.lookup e.id with
      | none => return result.insert nullId
      | some elementReferences =>
        elementReferences.foldlM (fun result next => do
          -- a nil pointer panics in the call that it is passed to
          let next ← Parsed.deref (eleIndex.lookup next)
          recurseRecip els eleIdReferences eleIndex gw fuel next stack result) result

/-- The gateway behind a pointer is changed. -/
def setGateway (i : Nat) (f : GatewaySpec → GatewaySpec) : Parsed (List Element) := do
  let e ← Parsed.deref els[i]?
  let gateway ← Parsed.deref e.gateway
  return els.set i { e with gateway := some (f gateway) }

/-- `tagReciprocal`: a join that several splits lead to, or none on some path, is solitary. -/
def tagReciprocal (eleIndex : GoMap Nat) (fuel gw : Nat)
    (els : List Element) : Parsed (List Element) := do
  let result ← recurseRecip els eleIdReferences eleIndex gw fuel gw 0 []
  let e ← Parsed.deref els[gw]?
  if nullId ∈ result ∨ result.length > 1 then
    match eleIdReferences.lookup e.id with
    | some expectations => setGateway els gw fun g => { g with fixedExpectations := expectations }
    | none => return els
  else do
    let only ← Parsed.deref (result.head?.bind eleIndex.lookup)
    let split ← Parsed.deref els[only]?
    let els ← setGateway els gw fun g => { g with reciprocalId := split.id }
    setGateway els only fun g => { g with reciprocalId := e.id }

/-! ### Gateways -/

/-- The second loop of `tagGateways`, for one element. -/
def tagJoin (eleIndex : GoMap Nat) (fuel : Nat)
    (els : List Element) (i : Nat) : Parsed (List Element) := do
  let e ← Parsed.deref els[i]?
  if e.type = .gateway then do
    let gateway ← Parsed.deref e.gateway
    if gateway.direction = .convergent then
      (tagReciprocal eleIdReferences eleIndex fuel i els).wrapErr "find reciprocal gateway"
    else return els
  else return els

/-- The process with its elements, its own and those of embedded sub-processes, replaced. -/
def Process.withElements : Process :=
  { process with
    elements := els.take process.elements.length
    subElements := els.drop process.elements.length }

/-- The second loop of `tagGateways`. -/
def tagJoins : Parsed Process := do
  let els ← (List.range process.elements.length).foldlM
    (tagJoin (getElementIdReferences process) (indexPointers process) fuel)
    process.allElements
  return process.withElements els

/-- `tagGateways`. Neither loop changes an id or a flow, so that the references and the pointers are
those of the process as it was. -/
def tagGateways : Parsed Process := do
  let process ← tagDirections process
  tagJoins fuel process

/-- One round of `tagWorkflow`. -/
def tagProcess (wf : Workflow) (process : Sigma fun _ : String => Process) : Parsed Workflow := do
  let tagged ← (tagGateways fuel process.2).wrapErr
    "an error occurred tagging the process gateways"
  return { wf with process := wf.process.insert process.1 tagged }

/-- `tagWorkflow`. -/
def tagWorkflow (wf : Workflow) : Parsed Workflow :=
  wf.process.entries.foldlM (tagProcess fuel) wf

end SharWorkflow
