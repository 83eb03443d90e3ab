import SharWorkflow.Model.Errors

/-!
# Variables

The variables of a token travel as one encoded byte string. The functions here decode them,
evaluate the transforms of an element over them and encode the result (`server/vars/vars.go`),
and merge the variables of the branches that meet at a join (`mergeGatewayVars` in
`gateway.go`). The encoding, the expression engine and the duration parser are libraries of the
engine and are kept abstract in `Lib`.

The code of nil is decoded to a nil map. It reads as an empty map, but the first assignment to one
of its keys panics.

* `Value`: a Go value of a variable, with the comparison `!=` of two interface values, which panics
  on values of an uncomparable type. A floating point number is given by its bits, since a NaN
  differs from itself and the two zeros do not differ.
* `Vars`: a set of variables as it is decoded, which may be a nil map.
* `inputVars`, `outputVars`: the transforms on entering and on leaving an element. They range over
  a map in any order.
* `mergeGatewayVars`: the last branch that changed a variable wins.
-/

namespace SharWorkflow

/-- The dynamic type of an integer. -/
inductive IntType
  | int
  | int8
  | int16
  | int32
  | int64
  | uint8
  | uint16
  | uint32
  | uint64
  deriving DecidableEq, Repr

/-- The bits of a floating point number are those of a NaN. -/
def floatIsNaN (bits : UInt64) : Bool := 0x7ff0000000000000 < bits &&& 0x7fffffffffffffff

/-- The bits of a floating point number are those of a zero of either sign. -/
def floatIsZero (bits : UInt64) : Bool := bits &&& 0x7fffffffffffffff = 0

/-- A Go value held by a variable. A `float64` is given by its bits. -/
inductive Value
  | nil
  | bool (b : Bool)
  | int (type : IntType) (n : Int)
  | float (bits : UInt64)
  | string (s : String)
  | bytes (b : Bytes)
  | stringList (l : List String)
  | list (l : List Value)
  | map (entries : List (String × Value))

instance : Inhabited Value := ⟨.nil⟩

/-- The comparison `a != b` of two interface values: values of different dynamic types differ,
and comparing two slices or two maps panics (`none`). -/
def Value.ne? : Value → Value → Option Bool
  | nil, nil => some false
  | bool a, bool b => some (a != b)
  | int s m, int t n => some (s != t || m != n)
  | float a, float b =>
    some (floatIsNaN a || floatIsNaN b || (a != b && !(floatIsZero a && floatIsZero b)))
  | string a, string b => some (a != b)
  | bytes _, bytes _ => none
  | stringList _, stringList _ => none
  | list _, list _ => none
  | map _, map _ => none
  | _, _ => some true

/-- The map of a set of variables. A nil map is `none`. -/
abbrev Vars : Type := Option (GoMap Value)

/-- The assignment `vars[k] = v`, which panics on a nil map (`none`). -/
def Vars.set? (vars : Vars) (k : String) (v : Value) : Option Vars :=
  vars.map fun vals => some (vals.insert k v)

/-- How the expression engine ends. -/
inductive Evaluated
  | value (v : Value)
  | error (e : Err)
  | panicked (e : Err)

/-- The libraries the engine is built on. `shift d t` is the time `t` moved by the ISO 8601
duration `d`, and `format` is `fmt.Sprintf` with the verb `%+v`. -/
structure Lib where
  unmarshal : Bytes → Except Err Vars
  marshal : Vars → Except Err Bytes
  eval : String → GoMap Value → Evaluated
  getVariables : String → Except Err (List String)
  atoi : String → Option Int
  shift : String → Int → Except Err Int
  format : Value → String

namespace Lib

variable (lib : Lib)

/-- `ServerVars.Decode` into an empty set of variables. -/
def decode (b : Bytes) : Except Err Vars :=
  if b.isEmpty then .ok (some ∅)
  else
    match lib.unmarshal b with
    | .ok vars => .ok vars
    | .error e => .error (.wrap "decode vars" e)

/-- What is read from a set of variables after `ServerVars.Decode`. -/
def readVars (b : Bytes) : Except Err (GoMap Value) := (lib.decode b).map (·.getD ∅)

/-- `ServerVars.Encode`. -/
def encode (vars : Vars) : Except Err Bytes :=
  match lib.marshal vars with
  | .ok b => .ok b
  | .error e => .error (.wrap "encode vars" e)

/-- `expression.EvalAny`. A panic of the engine is recovered into a fatal error. -/
def evalAny (exp : String) (vals : GoMap Value) : Except Err Value :=
  match lib.eval exp vals with
  | .value v => .ok v
  | .error e => .error (.wrap "evaluate expression" e)
  | .panicked e => .error (.wrap "panic: evaluate expression" (.workflowFatal e none))

/-- `expression.Eval[bool]`. The type assertion on a result of another type panics and is
recovered as well. -/
def evalBool (exp : String) (vals : GoMap Value) : Except Err Bool :=
  match lib.evalAny exp vals with
  | .ok (.bool b) => .ok b
  | .ok _ =>
    .error (.wrap "panic: evaluate expression" (.workflowFatal (.text "interface conversion") none))
  | .error e => .error e

/-- `expression.Eval[interface{}]`. The type assertion on a nil result panics, and is recovered. -/
def evalInterface (exp : String) (vals : GoMap Value) : Except Err Value :=
  match lib.evalAny exp vals with
  | .ok .nil =>
    .error (.wrap "panic: evaluate expression" (.workflowFatal (.text "interface conversion") none))
  | .ok v => .ok v
  | .error e => .error e

/-- The loop over a transform: its values are written over `acc` one after the other. -/
def evalTransform (text : String) (vals : GoMap Value) :
    List (Sigma fun _ : String => String) → GoMap Value → Except Err (GoMap Value)
  | [], acc => .ok acc
  | ⟨k, exp⟩ :: rest, acc =>
    match lib.evalAny exp vals with
    | .error e => .error (.wrap text e)
    | .ok v => evalTransform text vals rest (acc.insert k v)

/-- The loop over a transform that is written over a decoded set. -/
def writeTransform (text : String) (vals : GoMap Value)
    (entries : List (Sigma fun _ : String => String)) : Vars → Option (Except Err Vars)
  | some acc => some ((lib.evalTransform text vals entries acc).map some)
  | none =>
    match entries with
    | [] => some (.ok none)
    | ⟨_, exp⟩ :: _ =>
      match lib.evalAny exp vals with
      | .error e => some (.error (.wrap text e))
      -- the first assignment to a key of the nil map
      | .ok _ => none

/-- The loop over a transform, and the encoding of what it has written. -/
def encodeTransform (evalText encodeText : String) (vals : GoMap Value)
    (entries : List (Sigma fun _ : String => String)) (acc : Vars) : Option (Except Err Bytes) :=
  match lib.writeTransform evalText vals entries acc with
  | none => none
  | some (.error e) => some (.error e)
  | some (.ok vars) =>
    match lib.encode vars with
    | .error e => some (.error (.wrap encodeText e))
    | .ok b => some (.ok b)

/-- `InputVars`: the new content of `newVarsBin`. A nil transform is `none`. -/
def inputVars (order : MapOrder) (oldVarsBin newVarsBin : Bytes) :
    Option (GoMap String) → Except Err Bytes
  | none => .ok newVarsBin
  | some transform =>
    match lib.readVars oldVarsBin with
    | .error e => .error (.wrap "decode old input variables" e)
    | .ok processVars =>
      match lib.evalTransform "expression evalutaion failed" processVars
          (order.entries transform) ∅ with
      | .error e => .error e
      | .ok localVars =>
        match lib.encode (some localVars) with
        | .error e => .error (.wrap "encode transofrmed input variables" e)
        | .ok b => .ok b

/-- `OutputVars`: the new content of `mergeVarsBin`. A nil transform is `none`. The call panics
(`none`) when it assigns to the nil map. -/
def outputVars (order : MapOrder) (newVarsBin mergeVarsBin : Bytes) :
    Option (GoMap String) → Option (Except Err Bytes)
  | none => some (.ok mergeVarsBin)
  | some transform =>
    match lib.readVars newVarsBin with
    | .error e => some (.error (.wrap "decode new output variables" e))
    | .ok localVars =>
      match lib.decode mergeVarsBin with
      | .error e => some (.error (.wrap "decode merge output variables" e))
      | .ok processVars =>
        lib.encodeTransform "evaluate output transform expression"
          "encode new output process variables" localVars (order.entries transform) processVars

/-- The branch value `v` of the variable `k` is new, or differs from the one of the split. -/
def differs? (base : GoMap Value) (k : String) (v : Value) : Option Bool :=
  match base.lookup k with
  | none => some true
  | some bv => bv.ne? v

/-- The variables of one branch, written over `ret` where they differ from `base`. `none` is a
panic: of a comparison, or of an assignment to the nil map. -/
def mergeBranch (base : GoMap Value) : List (Sigma fun _ : String => Value) → Vars → Option Vars
  | [], ret => some ret
  | ⟨k, v⟩ :: rest, ret => do
    let differs ← differs? base k v
    let ret ← if differs then ret.set? k v else some ret
    mergeBranch base rest ret

/-- The variables of all branches, from the branch number `i` on. -/
def mergeBranches (base : GoMap Value) :
    Nat → List Bytes → Vars → Option (Except Err Vars)
  | _, [], ret => some (.ok ret)
  | i, b :: rest, ret =>
    match lib.readVars b with
    | .error e =>
      some (.error (.wrap ("merge gateway vars failed to decode variable set " ++ toString i) e))
    | .ok v2 =>
      match mergeBranch base v2.entries ret with
      | none => none
      | some ret' => mergeBranches base (i + 1) rest ret'

/-- `mergeGatewayVars`. `none` is a panic: of a comparison, of an assignment to the nil map, or of
the access to the first of no variables. -/
def mergeGatewayVars (gw : Gateway) : Option (Except Err Bytes) :=
  match gw.vars with
  | [] => none
  | [b] => some (.ok b)
  | b :: rest =>
    match lib.decode b with
    | .error e => some (.error (.wrap "merge gateway vars failed to decode base variables" e))
    | .ok base =>
      match lib.mergeBranches (base.getD ∅) 1 rest base with
      | none => none
      | some (.error e) => some (.error e)
      | some (.ok ret) =>
        match lib.encode ret with
        | .error e => some (.error (.wrap "merge gateway vars failed to encode variable set" e))
        | .ok b => some (.ok b)

end Lib

/-- The libraries, where every encoded set of variables is read as `vals`. -/
def constLib (vals : GoMap Value) : Lib where
  unmarshal _ := .ok (some vals)
  marshal _ := .ok []
  eval _ _ := .value .nil
  getVariables _ := .ok []
  atoi _ := none
  shift _ t := .ok t
  format _ := ""

/-- The byte for a variable that is a Boolean, or is not there. -/
def boolCode : Option Value → UInt8
  | some (.bool true) => 2
  | some (.bool false) => 1
  | _ => 0

/-- The variable that a byte stands for. -/
def writeBool (key : String) (code : UInt8) (vals : GoMap Value) : GoMap Value :=
  if code = 2 then vals.insert key (.bool true)
  else if code = 1 then vals.insert key (.bool false)
  else vals

/-- There are no variables but `a` and `b`, and they are Booleans. -/
def BoolVars (vals : GoMap Value) : Prop :=
  ∀ e ∈ vals.entries, (e.1 = "a" ∨ e.1 = "b") ∧ boolCode (some e.2) ≠ 0

instance (vals : GoMap Value) : Decidable (BoolVars vals) :=
  inferInstanceAs (Decidable (∀ _ ∈ _, _ ∧ _))

/-- Libraries with a byte for each of two variables, and the code of nil for the nil map. An
expression is the name of a variable. -/
def boolLib : Lib where
  __ := constLib ∅
  marshal
    | none => .ok [0xc0]
    | some vals =>
      if BoolVars vals then .ok [0x80, boolCode (vals.lookup "a"), boolCode (vals.lookup "b")]
      else .error (.text "msgpack: unsupported type")
  unmarshal
    | [0xc0] => .ok none
    | [_, a, b] => .ok (some (writeBool "b" b (writeBool "a" a ∅)))
    | _ => .error (.text "msgpack: invalid code decoding map length")
  eval exp vals :=
    match vals.lookup exp with
    | none => .error (.text "undefined variable")
    | some v => .value v

end SharWorkflow
