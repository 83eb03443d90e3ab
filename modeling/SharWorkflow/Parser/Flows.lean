import SharWorkflow.Parser.Parsed
import SharWorkflow.Model.Data

/-!
# The flows of an element

`parseFlowInOut` of `parser.go` reads the outgoing flows of an element from the definition. A
**document** is the list of its elements in document order, each with the attributes and the texts
that the parser asks for; a query selects the first element that matches, and a text is taken
literally in a query.

Only an exclusive gateway has a default flow. For any other element the id of the default flow is
the empty text, which a flow without an id text would match.

* `flow_eq_of_id_eq`: a flow is determined by its id, also where an element lists it twice.
-/

namespace SharWorkflow

open Parsed

/-- An element of a definition. -/
structure XmlNode where
  data : String
  id : Option String := none
  targetRef : Option String := none
  default_ : String := ""
  outgoing : List String := []
  conditionExpression : List String := []
  deriving DecidableEq, Repr

/-- The elements of a definition, in document order. -/
abbrev XmlDocument := List XmlNode

namespace XmlDocument

/-- The query for a sequence flow. -/
def sequenceFlow (doc : XmlDocument) (id : String) : Option XmlNode :=
  doc.find? fun n => n.data = "sequenceFlow" ∧ n.id = some id

/-- The query for any element. -/
def element (doc : XmlDocument) (id : String) : Option XmlNode := doc.find? fun n => n.id = some id

theorem id_of_sequenceFlow {doc : XmlDocument} {id : String} {sf : XmlNode}
    (h : doc.sequenceFlow id = some sf) : sf.id = some id := by
  have hmatch := List.find?_some h
  simp only [Bool.decide_and, Bool.and_eq_true, decide_eq_true_eq] at hmatch
  exact hmatch.2

end XmlDocument

/-- `parseConditions`. -/
def parseConditions (i : XmlNode) : List String := i.conditionExpression

/-- The flow with the given id. A node or an attribute that is missing makes the parser panic. -/
def parseFlow (doc : XmlDocument) (text : String) : Parsed Target := do
  let sf ← Parsed.deref (doc.sequenceFlow text)
  let targetRef ← Parsed.deref sf.targetRef
  let tg ← Parsed.deref (doc.element targetRef)
  let id ← Parsed.deref sf.id
  let target ← Parsed.deref tg.id
  return { id := id, target := target, conditions := parseConditions sf }

/-- The next flow is entered. The last one with the id of the default flow becomes the default. -/
def enterFlow (doc : XmlDocument) (def_ : String) (targets : Targets) (c : String × Nat) :
    Parsed Targets := do
  let target ← parseFlow doc c.1
  return {
    target := targets.target ++ [target]
    defaultTarget := if def_ = target.id then c.2 else targets.defaultTarget }

/-- `parseFlowInOut`: what becomes the outbound flows of an element. -/
def parseFlowInOut (doc : XmlDocument) (i : XmlNode) : Parsed (Option Targets) := do
  let def_ := if i.data = "exclusiveGateway" then i.default_ else ""
  let targets ← i.outgoing.zipIdx.foldlM (enterFlow doc def_) { target := [], defaultTarget := -1 }
  return if targets.target.length > 0 then some targets else none

variable {doc : XmlDocument}

theorem parseFlow_eq_done {text : String} {t : Target} (h : parseFlow doc text = .done t) :
    parseFlow doc t.id = .done t := by
  have hparsed := h
  obtain ⟨sf, hsf, h⟩ := bind_eq_done.1 h
  obtain ⟨targetRef, -, h⟩ := bind_eq_done.1 h
  obtain ⟨tg, -, h⟩ := bind_eq_done.1 h
  obtain ⟨id, hid, h⟩ := bind_eq_done.1 h
  obtain ⟨target, -, h⟩ := bind_eq_done.1 h
  rw [deref_eq_done] at hsf hid
  rw [XmlDocument.id_of_sequenceFlow hsf] at hid
  cases h
  cases hid
  exact hparsed

/-- What the parser produces: at least one flow, and each as it is read under its id. -/
theorem parseFlowInOut_eq_done {i : XmlNode} {outbound : Targets}
    (h : parseFlowInOut doc i = .done (some outbound)) :
    outbound.target ≠ [] ∧ ∀ t ∈ outbound.target, parseFlow doc t.id = .done t := by
  obtain ⟨targets, hfold, h⟩ := bind_eq_done.1 h
  have hflows : ∀ t ∈ targets.target, parseFlow doc t.id = .done t := by
    refine foldlM_inv (fun targets => ∀ t ∈ targets.target, parseFlow doc t.id = .done t)
      (fun c _ targets targets' htargets hround => ?_) (List.forall_mem_nil _) hfold
    obtain ⟨target, htarget, hround⟩ := bind_eq_done.1 hround
    cases hround
    rw [List.forall_mem_append]
    exact ⟨htargets, fun t ht => List.mem_singleton.1 ht ▸ parseFlow_eq_done htarget⟩
  by_cases hlength : targets.target.length > 0
  · rw [if_pos hlength] at h
    cases h
    exact ⟨List.ne_nil_of_length_pos hlength, hflows⟩
  · rw [if_neg hlength] at h
    cases h

/-- **A flow is determined by its id.** -/
theorem flow_eq_of_id_eq {i : XmlNode} {outbound : Targets}
    (h : parseFlowInOut doc i = .done (some outbound)) {t t' : Target} (ht : t ∈ outbound.target)
    (ht' : t' ∈ outbound.target) (hid : t.id = t'.id) : t = t' := by
  obtain ⟨-, hflows⟩ := parseFlowInOut_eq_done h
  have hparsed := hflows t ht
  rw [hid, hflows t' ht'] at hparsed
  exact (Parsed.done.inj hparsed).symm

end SharWorkflow
