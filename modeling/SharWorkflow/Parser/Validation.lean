import SharWorkflow.Model.Vars
import SharWorkflow.Parser.Transforms
import SharWorkflow.Client.Linter

/-!
# The validation of a model

`validation.go`: names and ids, service tasks, joins without a split, and the **variables**. A
variable is undefined where an input transform or a condition uses it and no element before has it
among its outputs. The check walks along the flows from each start event
(`findElementsReferencingUndefinedVars`); every branch has its own set of variables and of elements
that it has been to, and an element with more than one way on starts a new branch for each of them.

A branch that goes on and the branches that leave it share no set, so that the sets are passed by
value. The order in which the runtime ranges over the elements may differ from one call to the next;
a call is named by its branch and its element. The order in which it ranges over the processes and
over an input transform decides which error is returned, and nothing else.
-/

namespace SharWorkflow

variable (order : MapOrder) (eles : GoMap Element) (ele : Element) (lib : Lib)

/-! ### Variables -/

/-- The variables that are defined on a branch, and the elements that it has been to. -/
structure BranchContext where
  branchOutputVars : List String := []
  visited : List String := []

/-- A variable is entered as undefined at an element. -/
def addUndefined (eleId : String) (undefined : GoMap (List String)) (vr : String) :
    GoMap (List String) :=
  undefined.insert eleId (((undefined.lookup eleId).getD []).insert vr)

/-- `checkUndefinedVarReference`. -/
def checkUndefinedVarReference (eleId : String) (outputVars : List String)
    (undefined : GoMap (List String)) (expr : String) : Parsed (GoMap (List String)) :=
  match lib.getVariables expr with
  | .ok vars => return (vars.filter (· ∉ outputVars)).foldl (addUndefined eleId) undefined
  | .error e => .failed (.wrap "invalid input variable expression"
      (.wrap "get expression variables" e))

/-- The variables at an element: those of the branch, its own outputs, for a parallel join what is
collected for the joins, and the outputs of its error events. -/
def outputVarsAt (fuel : Nat) (ele : Element)
    (outputVars : List String) : Parsed (List String) := do
  let outputVars := outputVars ++ ele.outputTransform.keys
  let outputVars ← (if ele.type = .gateway then do
      let gateway ← Parsed.deref ele.gateway
      if gateway.direction = .convergent ∧ gateway.type = .parallel then
        findConvergentGatewayOutputTransforms order (fun _ => eles) defineKeys fuel outputVars
      else return outputVars
    else return outputVars)
  return outputVars ++ ele.errors.flatMap fun catchError => catchError.outputTransform.keys

/-- The expressions that an element uses: its input transforms, and the conditions of its flows. -/
def Element.expressions : List String :=
  ele.inputTransform.entries.map (·.2) ++
    ((ele.outbound.map fun outbound => outbound.target.flatMap (·.conditions)).getD [])

/-- The catch event of a link throw event: the last one in the order of the range. -/
def linkCatch : Option Element :=
  (linkCatches eles ((order.entries eles).map Sigma.fst) ele.execute).getLast?

/-- The elements that follow an element: the targets of its error events, of its flows, and of the
link that it throws. -/
def outboundsOf : Parsed (List String) := do
  let outbounds := (ele.errors.map fun catchError => catchError.target) ++ ele.targetIds
  if ele.type = .linkIntermediateThrowEvent then
    match linkCatch order eles ele with
    | some linkIntermediateCatchElement => return outbounds ++ [linkIntermediateCatchElement.id]
    | none => .failed (.text
        "failed to find link intermediate catch element for link intermediate throw element")
  else return outbounds

/-- `findElementsReferencingUndefinedVars`. -/
def findElementsReferencingUndefinedVars (lib : Lib) (order : String → String → MapOrder)
    (eles : GoMap Element) : Nat → String → BranchContext → String → GoMap (List String) →
      Parsed (GoMap (List String))
  | 0, _, _, _, _ => .unfinished
  | fuel + 1, eleId, bContext, branchId, undefined => do
    let ele ← Parsed.deref (eles.lookup eleId)
    if ele.type = .endEvent then return undefined
    else do
      let outputVars ← outputVarsAt (order branchId eleId) eles fuel ele bContext.branchOutputVars
      let undefined ← ele.expressions.foldlM (checkUndefinedVarReference lib eleId outputVars)
        undefined
      let outbounds ← outboundsOf (order branchId eleId) eles ele
      let visited := eleId :: bContext.visited
      outbounds.zipIdx.foldlM (fun undefined outbound =>
        if outbound.1 ∈ visited then return undefined
        else findElementsReferencingUndefinedVars lib order eles fuel outbound.1
          ⟨outputVars, visited⟩
          (if outbounds.length > 1 then branchId ++ "-" ++ toString outbound.2 else branchId)
          undefined) undefined

/-- `findElementIdsWithType`. -/
def findElementIdsWithType (typ : ElementType) (elements : List Element) : List String :=
  (elements.filter fun e => e.type = typ).map (·.id)

/-- `buildErrorMessage`. The slice of the elements is made with empty texts in front. -/
def buildErrorMessage (undefined : GoMap (List String)) : String :=
  "; ".intercalate (List.replicate undefined.entries.length "" ++
    undefined.entries.map fun e => e.1 ++ ":[" ++ ",".intercalate e.2 ++ "]")

/-- `checkVariables`. -/
def checkVariables (order : String → String → MapOrder) (fuel : Nat)
    (process : Process) : Parsed Unit := do
  let elesById := processTable process
  let startElementIds := findElementIdsWithType .startEvent process.elements
  let undefined ← startElementIds.zipIdx.foldlM (fun undefined start =>
    (findElementsReferencingUndefinedVars lib order elesById fuel start.1 {} (toString start.2)
      undefined).wrapErr "error when findElementsReferencingUndefinedVars") ∅
  if undefined.entries.length > 0 then
    .failed (.wrap ("elements referencing potentially undefined variables: " ++
      buildErrorMessage undefined) (.text "undefined variable"))
  else return ()

/-! ### Names and elements -/

/-- A character of a name that NATS accepts. -/
def validKeyChar (c : Char) : Bool :=
  c ∈ ['-', '/', '_', '=', '.'] || (decide ('a' ≤ c) && decide (c ≤ 'z')) ||
    (decide ('A' ≤ c) && decide (c ≤ 'Z')) || (decide ('0' ≤ c) && decide (c ≤ '9'))

/-- `validName`. -/
def validName (name : String) : Parsed Unit :=
  if name.toList = [] ∨ name.toList.head? = some '.' ∨ name.toList.getLast? = some '.' ∨
      name.toList.all validKeyChar = false then
    .failed (.text ("'" ++ name ++ "' contains invalid characters when used with SHAR"))
  else return ()

/-- `validServiceTask`. -/
def validServiceTask (j : Element) : Parsed Unit :=
  if j.execute = "" then
    .failed (.wrap "service task validation failed"
      (.text ("missing service task definition: " ++ j.id ++ "\n")))
  else return ()

/-- The checks of one element. -/
def validElement : Parsed Unit := do
  if ele.id = "" then
    .failed (.wrap "model validation failed" (.text ("missing id: " ++ ele.name ++ "\n")))
  else if ele.type = .serviceTask then (validServiceTask ele).wrapErr "invalid service task"
  else if ele.type = .gateway then do
    let gateway ← Parsed.deref ele.gateway
    if gateway.direction = .convergent ∧ gateway.reciprocalId = "" then
      .failed (.wrap ("gateway " ++ ele.name ++ "(" ++ ele.id ++ ") has no opening gateway")
        (.text "missing opening gateway"))
    else return ()
  else return ()

/-- The checks of one process. -/
def validProcess (order : String → String → String → MapOrder) (fuel : Nat)
    (process : Sigma fun _ : String => Process) : Parsed Unit := do
  (validName process.2.id).wrapErr "invalid process name"
  process.2.elements.forM validElement
  (checkVariables lib (order process.1) fuel process.2).wrapErr "invalid variable definition"

/-- `validModel`. -/
def validModel (order : String → String → String → MapOrder) (fuel : Nat)
    (workflow : Workflow) : Parsed Unit := do
  workflow.process.entries.forM (validProcess lib order fuel)
  workflow.messages.forM fun i => (validName i.name).wrapErr "invalid message name"

end SharWorkflow
