import TileScript.Fiber.Activate

/-! # The scheduler

All live fibers, activated once per tick in the order of their numbers. A called function runs at
once, and a caller goes on at once when the function has ended, so a chain of calls without pauses
settles within a tick. Scripts that call each other without end have no such tick: the number of
steps is bounded by an argument, and a larger bound changes no answer.
-/

namespace TileScript

open Text

structure Scheduler where
  fibers : Std.ExtTreeMap FiberId Fiber := {}
  nextId : FiberId := 0
  deriving DecidableEq

/-- A fiber to activate, and whether it may run twice in a tick. -/
structure Task where
  fiber : FiberId
  forced : Bool
  deriving DecidableEq, Repr

namespace Scheduler

/-- Starts a script on an entity. -/
def attach (s : Scheduler) (w : World) (entity : EntityId) (source : String) (authority : Int32) :
    Except SetupError (FiberId × Scheduler) :=
  if isAllBlank source.toList then .error .emptyScript
  else if (w.entity? entity).isNone then .error (.world (.entityNotFound entity))
  else
    let f := Fiber.start s.nextId entity authority source
    .ok (s.nextId, { fibers := s.fibers.insert s.nextId f, nextId := s.nextId + 1 })

/-- Hands a result to a fiber if it waits for `child`; yields whether it does. -/
def deliver (s : Scheduler) (parent child : FiberId) (r : ChildResult) : Bool × Scheduler :=
  match s.fibers[parent]? with
  | some p =>
    if p.awaiting = some child then
      (true, { s with fibers := s.fibers.insert parent (p.deliver r) })
    else (false, s)
  | none => (false, s)

/-- Removes a fiber; one that waits for it will fail. Yields whether the fiber was live. -/
def detach (s : Scheduler) (id : FiberId) : Bool × Scheduler :=
  match s.fibers[id]? with
  | none => (false, s)
  | some f =>
    let s := { s with fibers := s.fibers.erase id }
    match f.parent with
    | some parent => (true, (s.deliver parent id (.failed (.custom "Script detached"))).2)
    | none => (true, s)

/-- The number of callers above a fiber whose caller is `parent`. A caller has a smaller number
than the fiber it calls, so the number of the fiber bounds the search. -/
def callers (s : Scheduler) : Nat → Option FiberId → Nat
  | _, none => 0
  | 0, some _ => 0
  | bound + 1, some p => 1 + s.callers bound (s.fibers[p]?.bind (·.parent))

/-- The number of fibers in the chain of callers of `f`, with `f` itself. -/
def chainLength (s : Scheduler) (f : Fiber) : Nat := 1 + s.callers f.id f.parent

/-- Starts the fiber of a called function. -/
def spawn (env : Environment) (s : Scheduler) (caller : Fiber) (r : CallRequest) :
    Except ScriptError (FiberId × Scheduler) :=
  let path := r.category.name ++ "/" ++ r.script
  if env.limits.maxCallDepth ≤ s.chainLength caller then
    .error (.callDepthExceeded env.limits.maxCallDepth)
  else
    match env.source.load? r.category r.script with
    | none => .error (.scriptNotFound path)
    | some source =>
      if isAllBlank source.toList then .error (.emptyScript path)
      else
        let child := r.seeds.foldl (fun f (name, v) => f.seed name v)
          { Fiber.start s.nextId r.host r.authority source with parent := some caller.id }
        .ok (s.nextId, { fibers := s.fibers.insert s.nextId child, nextId := s.nextId + 1 })

/-- The message of an error on a line. -/
def failureMessage (line : Option Nat) (e : ScriptError) : String :=
  match line with
  | some n => "line " ++ n.repr ++ ": " ++ e.message
  | none => e.message

/-- The world with a failure noted in the log of the entity, if it exists, and as an event. -/
def reportFailure (w : World) (entity : EntityId) (message : String) : World :=
  let w :=
    match w.appendLog entity message with
    | .ok w => w
    | .error _ => w
  w.emit (.scriptFailed entity message)

/-- Reports the end of a fiber and hands its result to its caller, which is to go on. -/
def finish (s : Scheduler) (w : World) (t : Termination) : Scheduler × World × List Task :=
  let (r, w) : ChildResult × World :=
    match t.ending with
    | .exited v => (.value (v.getD default), w)
    | .failed e => (.failed e, reportFailure w t.entity (failureMessage t.line e))
  match t.parent with
  | none => (s, w, [])
  | some parent =>
    let (delivered, s) := s.deliver parent t.fiber r
    (s, w, if delivered then [⟨parent, true⟩] else [])

/-- Activates one fiber. Yields the fibers to activate next. -/
def step (env : Environment) (s : Scheduler) (w : World) (task : Task) :
    Scheduler × World × List Task :=
  match s.fibers[task.fiber]? with
  | none => (s, w, [])
  | some f =>
    let s := { s with fibers := s.fibers.erase task.fiber }
    match f.activate env task.forced w with
    | (.skipped, f, w) | (.yielded, f, w) =>
      ({ s with fibers := s.fibers.insert task.fiber f }, w, [])
    | (.called request, f, w) =>
      match s.spawn env f request with
      | .ok (child, s) =>
        ({ s with fibers := s.fibers.insert task.fiber (f.await child request.resume) }, w,
          [⟨child, true⟩])
      | .error e => s.finish w (f.termination (.failed e))
    | (.terminated t, _, w) => s.finish w t

/-- Works off tasks, the newest first, in at most `steps` steps. -/
def run (env : Environment) : Nat → List Task → Scheduler → World → Option (Scheduler × World)
  | _, [], s, w => some (s, w)
  | 0, _ :: _, _, _ => none
  | steps + 1, task :: tasks, s, w =>
    let (s, w, next) := s.step env w task
    run env steps (next ++ tasks) s w

/-- Activates every live fiber, with at most `steps` steps for each. -/
def tick (env : Environment) (steps : Nat) (s : Scheduler) (w : World) :
    Option (Scheduler × World) :=
  s.fibers.keys.foldlM (fun (s, w) id => run env steps [⟨id, false⟩] s w) (s, w)

/-- Live fibers in the order of their numbers. -/
def fiberList (s : Scheduler) : List Fiber := s.fibers.values

def fibersOn (s : Scheduler) (entity : EntityId) : List Fiber :=
  s.fiberList.filter (·.entity == entity)

end Scheduler

end TileScript
