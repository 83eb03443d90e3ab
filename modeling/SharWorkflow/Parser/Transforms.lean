import SharWorkflow.Parser.Tagger

/-!
# The output transforms of a join

`parser.go`: a join gets the output transforms of the elements on its branches. They are collected
by a walk along the flows from the split (`findGatewayBranchOutputTransforms`) that stops at the
join, and nowhere else.

The runtime ranges over a map in an order of its own choice (`MapOrder`). The order decides which
join is kept when two of them name the same split, and in which order the joins are handled.
-/

namespace SharWorkflow

/-- The order that comes to a key last. -/
def MapOrder.last (key : String) : MapOrder :=
  ⟨fun m => m.entries.filter (fun e => e.1 ≠ key) ++ m.entries.filter (fun e => ¬(e.1 ≠ key)),
    fun m => by simpa using List.filter_append_perm (fun e => decide (e.1 ≠ key)) m.entries⟩

/-- The entries of a map are written into another one. -/
def addTransforms (outboundTransform : GoMap String) (outputTransform : GoMap String) :
    GoMap String :=
  outputTransform.entries.foldl (fun transform kv => transform.insert kv.1 kv.2) outboundTransform

/-- The loop of `findGatewayBranchOutputTransforms`. The first target that is the join ends it. -/
def collectTargets (elesById : GoMap Element) (convergentGatewayId : String)
    (find : Element → GoMap String → Parsed (GoMap String)) :
    List Target → GoMap String → Parsed (GoMap String)
  | [], outboundTransform => return outboundTransform
  | target :: rest, outboundTransform => do
    let targetEle ← Parsed.deref (elesById.lookup target.target)
    let outboundTransform := addTransforms outboundTransform targetEle.outputTransform
    if targetEle.id = convergentGatewayId then return outboundTransform
    else do
      let outboundTransform ← find targetEle outboundTransform
      collectTargets elesById convergentGatewayId find rest outboundTransform

/-- `findGatewayBranchOutputTransforms`. -/
def findGatewayBranchOutputTransforms (elesById : GoMap Element) (convergentGatewayId : String) :
    Nat → Element → GoMap String → Parsed (GoMap String)
  | 0, _, _ => .unfinished
  | fuel + 1, el, outboundTransform => do
    let outbound ← Parsed.deref el.outbound
    collectTargets elesById convergentGatewayId
      (findGatewayBranchOutputTransforms elesById convergentGatewayId fuel) outbound.target
      outboundTransform

/-- One element is looked at for a join, which is entered under the id of its split. -/
def enterJoin (joins : GoMap String) (e : Sigma fun _ : String => Element) :
    Parsed (GoMap String) :=
  if e.2.type = .gateway then do
    let gateway ← Parsed.deref e.2.gateway
    if gateway.direction = .convergent then return joins.insert gateway.reciprocalId e.2.id
    else return joins
  else return joins

/-- The transforms for one join are collected and handled. -/
def handleJoin {σ : Type} (elesById : σ → GoMap Element)
    (handler : GoMap String → String → σ → Parsed σ) (fuel : Nat) (s : σ)
    (join : Sigma fun _ : String => String) : Parsed σ := do
  -- a nil pointer panics in the call that it is passed to
  let divergentGateway ← Parsed.deref ((elesById s).lookup join.1)
  let transform ← findGatewayBranchOutputTransforms (elesById s) join.2 fuel divergentGateway ∅
  handler transform join.2 s

/-- `findConvergentGatewayOutputTransforms`. The handler works on a state, which may hold the
elements. -/
def findConvergentGatewayOutputTransforms {σ : Type} (order : MapOrder)
    (elesById : σ → GoMap Element) (handler : GoMap String → String → σ → Parsed σ) (fuel : Nat)
    (s : σ) : Parsed σ := do
  let joins ← (order.entries (elesById s)).foldlM enterJoin ∅
  (order.entries joins).foldlM (handleJoin elesById handler fuel) s

/-- `populateConvergentGatewayOutputTransforms`: the handler of the parser. -/
def populateConvergentGatewayOutputTransforms (transform : GoMap String)
    (convergentGatewayId : String) (elesById : GoMap Element) : Parsed (GoMap Element) := do
  let convergentGateway ← Parsed.deref (elesById.lookup convergentGatewayId)
  return elesById.insert convergentGatewayId { convergentGateway with outputTransform := transform }

/-- The handler of the variable check: the keys become defined. -/
def defineKeys (transform : GoMap String) (_ : String) (outputVars : List String) :
    Parsed (List String) :=
  return outputVars ++ transform.keys

end SharWorkflow
