import TileScript.Expr
import TileScript.Fiber.Basic

/-! # Evaluating expressions

An expression is evaluated against the variables of a fiber and the world. Evaluation can change the
world through system functions, and what it changed stays changed when it is interrupted. A call of
a function of an entity or an item always interrupts it.
-/

namespace TileScript

open Text

/-- Why a line is not evaluated to its end. -/
inductive Interrupt where
  | error (e : ScriptError)
  | call (request : CallRequest)
  /-- The script ends with a value for its caller. -/
  | exit (v : Option Value)
  deriving DecidableEq

structure EvalState where
  world : World
  /-- The longest pause asked for on this line. -/
  pause : Option Nat := none
  deriving DecidableEq

abbrev Eval := EStateM Interrupt EvalState

/-- What an expression can refer to. -/
structure Scope where
  env : Environment
  entity : EntityId
  authority : Int32
  vars : Std.ExtTreeMap String Value
  /-- The line being evaluated. -/
  line : List Char

namespace Eval

def fail {α : Type} (e : ScriptError) : Eval α := throw (.error e)

def ofExcept {α : Type} : Except ScriptError α → Eval α
  | .ok a => pure a
  | .error e => fail e

def world : Eval World := return (← get).world

/-- Asks for a pause after this line; of several the longest counts. -/
def requestPause (ticks : Nat) : Eval Unit :=
  modify fun s => { s with pause := some (s.pause.elim ticks (Nat.max ticks)) }

end Eval

/-- How far away the target of a call may be. -/
def maxCallRange : Int32 := 1

namespace Scope

/-- Whether what a value refers to exists. -/
def valueExists (w : World) : Value → Bool
  | .entity id => (w.entity? id).isSome
  | .item id => (w.item? id).isSome
  | _ => true

/-- The first word of a chain: a reserved root, a literal, or a variable. -/
def resolveRoot (s : Scope) (w : World) (word : List Char) :
    Except ScriptError (Option Value × Accessor) :=
  let name := String.ofList word
  if name = "_" then
    if s.authority = serverOwner then .ok (none, .authority) else .error .unauthenticated
  else if name = "items" then
    if (w.entity? s.entity).any (·.hasStorage) then .ok (none, .items)
    else .error (.nullReference "items")
  else
    match Value.ofLiteral? word with
    | some v => if valueExists w v then .ok (some v, .target v) else .error (.nullReference name)
    | none =>
      match s.vars[name]? with
      | some v => .ok (some v, .target v)
      | none => .error (.nullReference name)

/-- A property: an integer variable of an entity. -/
def readProperty (w : World) (target : Option Value) (name : List Char) : Except ScriptError Value :=
  let property := String.ofList name
  let missing : ScriptError :=
    .nullReference (target.elim "NULL" Value.literal ++ "." ++ property)
  match target with
  | some (.entity id) =>
    match (w.entity? id).bind (·.vars[property]?) with
    | some n => .ok (.int n)
    | none => .error missing
  | _ => .error missing

/-- Whether a function can be called with `got` parameters. -/
def checkArity (f : FunctionDescriptor) (got : Nat) : Except ScriptError Unit :=
  if !f.isDefined then .error (.undefinedFunction f.scriptName)
  else if f.parameterCount.toNat ≠ got then .error (.arity f.name f.parameterCount.toNat got)
  else .ok ()

def paramSeeds (params : List Value) : List (String × Value) :=
  params.zipIdx.map fun (v, i) => ("_param" ++ i.repr, v)

def existingEntity (w : World) (id : EntityId) : Except ScriptError Entity :=
  match w.entity? id with
  | some e => .ok e
  | none => .error (.nullReference id.reference)

/-- The call of a function of an entity. The caller must stand next to it and face it. -/
def entityCall (s : Scope) (w : World) (target : EntityId) (f : FunctionDescriptor)
    (params : List Value) (resume : Option ResumePoint) : Except ScriptError CallRequest := do
  checkArity f params.length
  let caller ← existingEntity w s.entity
  let callee ← existingEntity w target
  let distance := caller.pos.summedDelta callee.pos
  if maxCallRange < distance then .error (.outOfRange distance maxCallRange)
  else if caller.pos.step caller.direction ≠ callee.pos then .error .notFacing
  else
    return {
      host := target
      authority := callee.owner
      category := .entity
      script := f.scriptName
      seeds := ("_entity", .entity s.entity) :: paramSeeds params
      resume }

/-- The call of a function of an item. The caller must hold it. -/
def itemCall (s : Scope) (w : World) (item : ItemId) (f : FunctionDescriptor)
    (params : List Value) (resume : Option ResumePoint) : Except ScriptError CallRequest := do
  checkArity f params.length
  let caller ← existingEntity w s.entity
  if !caller.holds item then .error (.itemNotHeld item)
  else
    return {
      host := s.entity
      authority := caller.owner
      category := .item
      script := f.scriptName
      seeds := ("_entity", .entity s.entity) :: ("_item", .item item) :: paramSeeds params
      resume }

/-- The call of a function of the target, if its type has one with this name. -/
def functionCall? (s : Scope) (w : World) (target : Option Value) (name : String)
    (params : List Value) (resume : Option ResumePoint) : Option (Except ScriptError CallRequest) :=
  match target with
  | some (.entity id) =>
    (s.env.typeFunctions.resolveEntity? w s.env.functions id name).map fun f =>
      s.entityCall w id f params resume
  | some (.item id) =>
    (s.env.typeFunctions.resolveItem? w s.env.functions id name).map fun f =>
      s.itemCall w id f params resume
  | _ => none

/-- The type of the target of a call, as errors name it. -/
def targetTypeName (w : World) (target : Option Value) : String :=
  let name? : Option String :=
    match target with
    | some (.entity id) => (w.entityTypeOf? id).map (·.name)
    | some (.item id) => (w.itemTypeOf? id).map (·.name)
    | _ => none
  name?.getD "NULL"

/-- Runs a system function and takes up what it asks for. A failure counts before an exit, and an
exit before a pause. -/
def systemCall (s : Scope) (name : String) (f : SystemFunction) (accessor : Accessor)
    (params : List Value) : Eval (Option Value) := do
  let (r, w) := f { entity := s.entity, authority := s.authority, accessor, params } (← Eval.world)
  modify fun st => { st with world := w }
  match r.data.bind Sentinel.decode? with
  | some sentinel => Eval.fail (sentinel.toError accessor name params.length)
  | none =>
    let value := r.data.map Value.ofData
    if r.exit then throw (.exit value)
    else
      if r.cooldown ≠ 0 then Eval.requestPause r.cooldown.toNat
      return value

/-- Runs a call with evaluated parameters: a function of the target, or else a system function. -/
def invoke (s : Scope) (target : Option Value) (accessor : Accessor) (name : String)
    (params : List Value) (resume : Option ResumePoint) : Eval (Option Value) := do
  let w ← Eval.world
  match s.functionCall? w target name params resume with
  | some (.ok request) => throw (.call request)
  | some (.error e) => Eval.fail e
  | none =>
    match s.env.systems[name]? with
    | some f => s.systemCall name f accessor params
    | none => Eval.fail (.unknownFunction (targetTypeName w target ++ ":" ++ name))

/-- Where a call resumes its line, if its value is wanted. -/
def resumePoint (s : Scope) (wanted : Bool) (statement : List Char) : Option ResumePoint :=
  if wanted then some ⟨s.line, statement⟩ else none

/-- One more operand of an arithmetic operation. -/
def accumulate (op : ArithmeticOp) (acc : Option Int64) (v : Value) : Except ScriptError Int64 :=
  match v.toInt?, acc with
  | none, _ => .error (.notANumber v.literal)
  | some n, none => .ok n
  | some n, some a =>
    match op.compute? a n with
    | some r => .ok r
    | none =>
      .error (.arithmetic (a.toInt.repr ++ " " ++ op.symbol.toString ++ " " ++ n.toInt.repr))

mutual

/-- The value of an expression. -/
def eval (s : Scope) : Expr → Eval Value
  | .arithmetic op operands => evalOperands s op none operands
  | .chain links => evalChain s true links
termination_by e => 2 * sizeOf e

/-- The result of an operation over operands, from left to right. -/
def evalOperands (s : Scope) (op : ArithmeticOp) (acc : Option Int64) : List Expr → Eval Value
  | [] =>
    match acc with
    | some n => pure (.int n)
    | none => Eval.fail .emptyExpression
  | e :: es => do
    let v ← eval s e
    let n ← Eval.ofExcept (accumulate op acc v)
    evalOperands s op (some n) es
termination_by es => 2 * sizeOf es

/-- The value of a chain. The value of its last call is wanted only if `wanted` says so. -/
def evalChain (s : Scope) (wanted : Bool) : List Link → Eval Value
  | [] => Eval.fail .emptyExpression
  | .word text :: rest => do
    let (current, accessor) ← Eval.ofExcept (s.resolveRoot (← Eval.world) text)
    evalLinks s wanted current accessor rest
  | link :: rest => evalLinks s wanted none .none (link :: rest)
termination_by links => 2 * sizeOf links + 1

/-- The value of the rest of a chain, whose first part has led to a value or an accessor. -/
def evalLinks (s : Scope) (wanted : Bool) (current : Option Value) (accessor : Accessor) :
    List Link → Eval Value
  | [] => pure (current.getD default)
  | .word name :: rest => do
    let v ← Eval.ofExcept (readProperty (← Eval.world) current name)
    evalLinks s wanted (some v) (.target v) rest
  | .call name arguments reach :: rest => do
    let params ← evalArguments s arguments
    let resume := s.resumePoint (wanted || !rest.isEmpty) reach
    let v ← s.invoke current accessor name params resume
    evalLinks s wanted v (.ofValue? v) rest
  | .malformed text :: _ => Eval.fail (.malformedCall (String.ofList text))
termination_by links => 2 * sizeOf links

def evalArguments (s : Scope) : List Expr → Eval (List Value)
  | [] => pure []
  | e :: es => do
    let v ← eval s e
    let vs ← evalArguments s es
    return v :: vs
termination_by es => 2 * sizeOf es

end

end Scope

end TileScript
