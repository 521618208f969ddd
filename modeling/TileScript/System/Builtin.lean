import TileScript.System.Function

/-! # Built-in functions

What every script can call: logging, ending, moving, looking around, sleeping, and with full
authority giving items and shaking.
-/

namespace TileScript

open Text

namespace Builtin

/-- Fails unless there are exactly `n` parameters. -/
def expectParams (call : SystemCall) (n : Nat) : Except Sentinel Unit :=
  if call.params.length = n then .ok () else .error (.wrongArity (.ofNat n))

def param (call : SystemCall) (i : Nat) : Except Sentinel Value :=
  match call.params[i]? with
  | some v => .ok v
  | none => .error .nullReference

def intParam (call : SystemCall) (i : Nat) : Except Sentinel Int64 := do
  let v ← param call i
  match v.toInt? with
  | some n => .ok n
  | none => .error (.custom ("Expected a number, got " ++ v.literal))

/-- An existing entity, given as a reference or by its number. -/
def entityParam (call : SystemCall) (w : World) (i : Nat) : Except Sentinel EntityId := do
  let v ← param call i
  let id? : Option EntityId :=
    match v with
    | .entity id => some id
    | v => (v.toInt?.bind fun n => toUInt32? n.toInt).map EntityId.mk
  match id? with
  | some id => if (w.entity? id).isSome then .ok id else .error .nullReference
  | none => .error .nullReference

def coordinateParam (call : SystemCall) (i : Nat) : Except Sentinel Int32 := do
  let n ← intParam call i
  match toInt32? n.toInt with
  | some c => .ok c
  | none => .error (.custom ("Coordinate out of range: " ++ n.toInt.repr))

/-- The result of a world operation that can only fail for want of an entity. -/
def orMissing {α : Type} : Except WorldError α → Except Sentinel α
  | .ok a => .ok a
  | .error _ => .error .nullReference

/-- `log(v)`: one line in the log of the calling entity. -/
def log : Builtin := fun call w => do
  if call.accessor ≠ .none then .error .unknownFunction
  else
    expectParams call 1
    let v ← param call 0
    return (.done, ← orMissing (w.appendLog call.entity v.display))

/-- `exit()` or `exit(v)`: the end of the calling script. -/
def exit : Builtin := fun call w =>
  if call.accessor ≠ .none then .error .unknownFunction
  else if 1 < call.params.length then .error (.wrongArity 1)
  else .ok ({ data := call.params.head?.map Value.literal, exit := true }, w)

/-- Queues a step of the calling entity, which pauses the script. -/
def stepSelf (call : SystemCall) (w : World) (index : Int64) :
    Except Sentinel (SystemReturn × World) :=
  match Direction.ofIndex? index with
  | none => .error (.custom ("Invalid direction " ++ index.toInt.repr))
  | some d =>
    match w.sendCommand call.entity (.move d) call.authority with
    | .ok w => .ok (.pause, w)
    | .error (.notAuthorized _ _ _) => .error (.custom "Invalid authentication")
    | .error _ => .error .nullReference

/-- `move(d)` steps; `_:move(e, x, y, z)` puts an entity onto a tile that is not solid. -/
def move : Builtin := fun call w =>
  match call.accessor with
  | .none => do
    expectParams call 1
    stepSelf call w (← intParam call 0)
  | .authority => do
    expectParams call 4
    let id ← entityParam call w 0
    let pos : TilePos :=
      ⟨← coordinateParam call 1, ← coordinateParam call 2, ← coordinateParam call 3⟩
    let (_, w) ← orMissing (w.tryMove id pos true)
    return (.done, w)
  | .target _ => .error .notImplemented
  | .items => .error .unknownFunction

/-- `up()`, `down()`, `left()` and `right()`: `move` with a fixed direction. -/
def step (d : Direction) : Builtin := fun call w => do
  expectParams call 0
  move { call with params := [.int d.index] } w

/-- `get()` is the entity ahead, `_:get(e)` an entity by number, `items:get(n)` a held item. -/
def get : Builtin := fun call w =>
  match call.accessor with
  | .none => do
    expectParams call 0
    let me ← orMissing (w.entity call.entity)
    match w.entityAt? (me.pos.step me.direction) with
    | some id => return (.value (.entity id), w)
    | none => .error .nullReference
  | .authority => do
    expectParams call 1
    return (.value (.entity (← entityParam call w 0)), w)
  | .items => do
    expectParams call 1
    let slot ← intParam call 0
    let me ← orMissing (w.entity call.entity)
    match (toNat64? slot.toInt).bind me.itemInSlot? with
    | some item => return (.value (.item item), w)
    | none => .error (.resource ("Item slot " ++ slot.toInt.repr ++ " not found"))
  | .target _ => .error .unknownFunction

/-- `sleep(n)`: a cooldown of `n` ticks, or a pause until the next tick. -/
def sleep : Builtin := fun call w => do
  if call.accessor ≠ .none then .error .unknownFunction
  else
    expectParams call 1
    let n := (← intParam call 0).toInt
    if n < 0 ∨ 0x80000000 ≤ n then .error (.custom ("Invalid sleep duration " ++ n.repr))
    else if n = 0 then return (.pause, w)
    else return ({ cooldown := n }, w)

/-- `_:giveItem(e, t)`: a new item of type `t`. -/
def giveItem : Builtin := fun call w => do
  if call.accessor ≠ .authority then .error .unknownFunction
  else
    expectParams call 2
    let id ← entityParam call w 0
    match toUInt32? (← intParam call 1).toInt with
    | none => .error .nullReference
    | some itemType =>
      match w.giveItem id itemType with
      | .ok (item, w) => return (.value (.item item), w)
      | .error (.inventoryFull e) => .error (.resource (WorldError.inventoryFull e).message)
      | .error (.noStorage e) => .error (.resource (WorldError.noStorage e).message)
      | .error _ => .error .nullReference

/-- A length of time: an integer, or a text that spells a number. -/
def seconds : Value → Except Sentinel Binary64
  | .int n => .ok (.ofInt n.toInt)
  | .text s =>
    match Binary64.read? (trim s.toList) with
    | some x => .ok x
    | none => .error (.custom ("Invalid duration " ++ s))
  | v => .error (.custom ("Invalid duration " ++ v.literal))

/-- `_:shake(e, s)`: a request to shake an entity. -/
def shake : Builtin := fun call w => do
  if call.accessor ≠ .authority then .error .unknownFunction
  else
    expectParams call 2
    let id ← entityParam call w 0
    let s ← seconds (← param call 1)
    return (.done, ← orMissing (w.shake id s))

/-- The built-in functions by name. -/
def all : List (String × Builtin) :=
  [("log", log), ("exit", exit), ("move", move), ("up", step .up), ("down", step .down),
    ("left", step .left), ("right", step .right), ("get", get), ("sleep", sleep),
    ("giveItem", giveItem), ("shake", shake)]

end Builtin

/-- The table of the built-in functions. -/
def SystemTable.builtins : SystemTable :=
  Builtin.all.foldl (fun t (name, f) => t.insert name f.toFunction) {}

end TileScript
