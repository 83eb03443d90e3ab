import SharWorkflow.Nats.World

/-!
# Stored objects

The functions of `common/natsutil.go` through which the engine uses the key-value store: load,
save, update and delete of an object. Marshalling is not modelled: the store holds the objects
themselves.

* `Act`: a program that may fail, the shape of a Go function with an error result.
* `updateKV`: the optimistic update loop. It reads an entry, applies the update function and
  writes the result back if the revision is still the one it read; on a conflict it starts over.
* `updateObj`: saves the given message first when the key is absent, then updates.
-/

namespace SharWorkflow

open Concurrent

/-- A program over the calls of the engine. -/
abbrev P : Type → Type 1 := Prog Op Ans

/-- A program that may fail. -/
abbrev Act : Type → Type 1 := ExceptT Err P

/-- The program has returned without error. -/
def returnedOk {ε α : Type} (p : P (Except ε α)) : Bool :=
  match p.result? with
  | some (.ok _) => true
  | _ => false

/-- The program has panicked. -/
def panicked {α : Type} : P α → Bool
  | .call .panic _ => true
  | _ => false

/-- No thread goes on that has returned or panicked. -/
theorem not_step_of_ended {ι α : Type} [DecidableEq ι] {F : Op → Prop}
    {c c' : Config ι Op Ans World α}
    (h : ∀ i, (c.threads i).result?.isSome = true ∨ panicked (c.threads i) = true) :
    ¬ Step (World.env F) c c' := by
  intro hstep
  cases hstep with
  | @call i o k r s' hthread hanswer =>
    have hi := h i
    rw [hthread] at hi
    cases o with
    | panic => exact r.elim
    | _ => simp [Prog.result?, panicked] at hi
  | @unroll i _ _ x body k hthread =>
    have hi := h i
    rw [hthread] at hi
    simp [Prog.result?, panicked] at hi

namespace Act

variable {α : Type}

/-- `fmt.Errorf("text: %w", err)` around the error of a program. -/
def wrap (text : String) (x : Act α) : Act α :=
  Prog.bind x.run fun
    | .ok a => .ret (.ok a)
    | .error e => .ret (.error (.wrap text e))

/-- An error is turned into another one. -/
def mapError (f : Err → Err) (x : Act α) : Act α :=
  Prog.bind x.run fun
    | .ok a => .ret (.ok a)
    | .error e => .ret (.error (f e))

/-- The result of a program together with its error, for callers that look at both. -/
def attempt (x : Act α) : Act (Except Err α) := Prog.bind x.run fun r => .ret (.ok r)

/-- The result of a program, or nothing when its error is one of the given ones. -/
def optional (absent : List Sentinel) (x : Act α) : Act (Option α) :=
  Prog.bind x.run fun
    | .ok a => .ret (.ok (some a))
    | .error e => if absent.any e.is then .ret (.ok none) else .ret (.error e)

/-- A program that is run under a condition only. -/
def when (c : Prop) [Decidable c] (x : Act Unit) : Act Unit := if c then x else pure ()

/-- A pure computation that may fail. -/
def ofExcept (r : Except Err α) : Act α := (Prog.ret r : P (Except Err α))

/-- A Go panic, for example the use of a nil pointer. -/
def panic : Act α := (Prog.call .panic fun r => Empty.elim r : P (Except Err α))

/-- The value of a pointer. -/
def deref (x : Option α) : Act α :=
  match x with
  | some a => pure a
  | none => panic

/-- A pure computation that may fail, or panic (`none`). -/
def ofCall (x : Option (Except Err α)) : Act α := do
  let r ← deref x
  ofExcept r

end Act

/-- The handler of a message. It returns whether to acknowledge the message; an error comes with
such an answer as well. -/
abbrev Handler : Type → Type 1 := ExceptT (Bool × Err) P

/-- A program whose error is turned into a way to end what it is part of. -/
def Act.ending {ε α : Type} (f : Err → ε) (x : Act α) : ExceptT ε P α :=
  Prog.bind x.run fun
    | .ok a => .ret (.ok a)
    | .error e => .ret (.error (f e))

/-- A program within a handler that answers `ack` when it fails. -/
def Act.acking {α : Type} (ack : Bool) (x : Act α) : Handler α := Act.ending (Prod.mk ack) x

/-- A message is delivered again until its handler returns without error. -/
def redeliver {α : Type} (handler : Handler α) : P α :=
  .loop ()
    (fun _ => handler.run.bind fun
      | .ok a => .ret (.inr a)
      | .error _ => .ret (.inl ()))
    .ret

/-- `KvsFor`: the buckets of a namespace. -/
def kvsFor (ns : String) : Act Unit := (Prog.perform (Op.kvsFor ns) : P (Ans (Op.kvsFor ns)))

/-- `KeyValue.Get`. -/
def kvGet (l : Loc) : Act (Entry l.Val) := (Prog.perform (Op.get l) : P (Ans (Op.get l)))

/-- `KeyValue.Put`. -/
def kvPut (l : Loc) (v : l.Val) : Act Unit := (Prog.perform (Op.put l v) : P (Ans (Op.put l v)))

/-- `KeyValue.Create`. -/
def kvCreate (l : Loc) (v : l.Val) : Act Unit :=
  (Prog.perform (Op.create l v) : P (Ans (Op.create l v)))

/-- `KeyValue.Update`. -/
def kvUpdate (l : Loc) (v : l.Val) (revision : Nat) : Act Unit :=
  (Prog.perform (Op.update l v revision) : P (Ans (Op.update l v revision)))

/-- `KeyValue.Delete`. -/
def kvDelete (l : Loc) : Act Unit := (Prog.perform (Op.delete l) : P (Ans (Op.delete l)))

/-- A fresh id (`ksuid.New().String()`). -/
def newId : Act String := (Prog.perform Op.newId : P String).bind fun id => .ret (.ok id)

/-- `time.Now().UnixNano()`. -/
def now : Act Int := (Prog.perform Op.now : P Int).bind fun t => .ret (.ok t)

/-- The order in which the runtime ranges over a map. -/
def mapOrder (keys : List String) : Act (List String) :=
  (Prog.perform (Op.mapOrder keys) : P (List String)).bind fun r => .ret (.ok r)

/-- `KeyPrefixSearch` without the option that excludes deleted keys. -/
def keyPrefixSearch (ns : String) (b : Bucket) (pre : String) : Act (List String) :=
  (Prog.perform (Op.searchKeys ns b pre) : P (Ans (Op.searchKeys ns b pre)))

/-- The lookup of a key, before the other keys: the keys that are left, and the last error. -/
def noteKey {V : Type} (k : String) (r : Except Err (Entry V)) (found : List String × Option Err) :
    List String × Option Err :=
  match r with
  | .ok _ => (k :: found.1, found.2)
  | .error e => (found.1, if e.is .keyNotFound then found.2 else found.2.or (some e))

/-- The keys under which something is stored, and the last error other than of a missing key. -/
def excludeDeleted (ns : String) (b : Bucket) : List String → P (List String × Option Err)
  | [] => .ret ([], none)
  | k :: keys => (kvGet ⟨ns, b, k⟩).run.bind fun r =>
      (excludeDeleted ns b keys).bind fun found => .ret (noteKey k r found)

/-- `KeyPrefixSearch` with the option that excludes deleted keys. -/
def keyPrefixSearchLive (ns : String) (b : Bucket) (pre : String) : Act (List String) := do
  let keys ← keyPrefixSearch ns b pre
  let (live, failed) ← (excludeDeleted ns b keys : P (List String × Option Err))
  match failed with
  | some e => throw (.wrap "get key value" e)
  | none => return live

/-- Marks the call of a function in the trace. -/
def mark (function : String) : Act Unit :=
  (Prog.perform (Op.mark function) : P Unit).bind fun _ => .ret (.ok ())

/-- An error is logged. This leaves a mark in the trace. -/
def logError (text : String) : Act Unit := mark ("log.Error: " ++ text)

/-- The call logs the error. -/
def Op.logsError (text : String) : Op → Bool
  | .mark function => function = "log.Error: " ++ text
  | _ => false

/-- The buckets of a namespace, with the message most functions use when there are none. -/
def nsKVs (ns : String) : Act Unit := Act.wrap ("get KVs for ns " ++ ns) (kvsFor ns)

/-! ### Load, save and delete -/

/-- `Save`. -/
def save (l : Loc) (v : l.Val) : Act Unit := Act.wrap "save kv" (kvPut l v)

/-- `SaveObj`. -/
def saveObj (l : Loc) (v : l.Val) : Act Unit := save l v

/-- `Load`. -/
def load (l : Loc) : Act l.Val :=
  Act.wrap "load value from KV" do
    let entry ← kvGet l
    return entry.value

/-- `LoadObj`. -/
def loadObj (l : Loc) : Act l.Val :=
  Act.wrap ("load object from KV " ++ l.ns ++ "_" ++ l.bucket.name ++ "(" ++ l.key ++ ")") (load l)

/-- `Delete`. -/
def delete (l : Loc) : Act Unit := Act.wrap "delete key" (kvDelete l)

/-! ### Update -/

/-- `updateKV`. The result carries the error and the content of the message object, which holds
what was last read or computed even when the update fails. -/
def updateKV (l : Loc) (msg : l.Val) (updateFn : l.Val → Except Err l.Val) :
    P (Except Err Unit × l.Val) :=
  .loop msg
    (fun msg => do
      match ← (kvGet l).run with
      | .error e => return .inr (.error (.wrap "get value to update" e), msg)
      | .ok entry =>
        match updateFn entry.value with
        | .error e =>
          return .inr (.error (.wrap "update function" (.wrap "update function" e)), entry.value)
        | .ok uv =>
          match ← (kvUpdate l uv entry.revision).run with
          | .error e =>
            if e.is .wrongLastSequence then
              return .inl uv
            else
              return .inr (.error (.wrap "update kv" e), uv)
          | .ok _ => return .inr (.ok (), uv))
    .ret

/-- Whether `UpdateObj` finds nothing to update. -/
def isAbsent {V : Type} : Except Err (Entry V) → Bool
  | .error e => e.is .keyNotFound
  | .ok entry => entry.isNil

/-- `UpdateObj`, with the content of the message object. -/
def updateObjMsg (l : Loc) (msg : l.Val) (updateFn : l.Val → Except Err l.Val) :
    P (Except Err Unit × l.Val) := do
  let old ← (kvGet l).run
  if isAbsent old then
    match ← (saveObj l msg).run with
    | .error e => return (.error (.wrap "save during update object" e), msg)
    | .ok _ => updateKV l msg updateFn
  else
    updateKV l msg updateFn

/-- `UpdateObj`. A caller that gets no error reads the updated object from its message. -/
def updateObj (l : Loc) (msg : l.Val) (updateFn : l.Val → Except Err l.Val) : Act l.Val :=
  (updateObjMsg l msg updateFn).bind fun
    | (.ok _, v) => .ret (.ok v)
    | (.error e, _) => .ret (.error e)

end SharWorkflow
