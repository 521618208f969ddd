import TileScript.Condition
import TileScript.Fiber.Evaluate
import TileScript.Statement

/-! # Activating fibers

An activation runs statements until the script pauses, calls, ends, or uses up its budget. Lines
that evaluate nothing (blank lines, block keywords, branches that are not taken) cost no budget; the
search for the next statement passes the end of the script at most once.
-/

namespace TileScript

open Text

namespace Cursor

def advance (c : Cursor) : Cursor := { c with line := c.line + 1 }

/-- Whether every open block is in a branch that runs. -/
def isActive (c : Cursor) : Bool := c.lineDepth == c.logicDepth

/-- The cursor behind `end`. -/
def close? (c : Cursor) : Option Cursor :=
  if c.lineDepth = 0 then none
  else
    some { c with
      lineDepth := c.lineDepth - 1
      logicDepth := if c.lineDepth = c.logicDepth then c.logicDepth - 1 else c.logicDepth }

/-- The cursor behind `else`: the innermost block changes its branch, if that is for it to decide. -/
def switch? (c : Cursor) : Option Cursor :=
  if c.lineDepth = 0 then none
  else if c.lineDepth = c.logicDepth + 1 then some { c with logicDepth := c.logicDepth + 1 }
  else if c.lineDepth = c.logicDepth then some { c with logicDepth := c.logicDepth - 1 }
  else some c

/-- The cursor behind an `if` that is evaluated. -/
def enter (c : Cursor) (taken : Bool) : Cursor :=
  { c with
    lineDepth := c.lineDepth + 1
    logicDepth := if taken then c.logicDepth + 1 else c.logicDepth }

/-- The cursor behind a statement in a branch that does not run. -/
def skip (c : Cursor) : Statement → Cursor
  | .branch _ => { c with lineDepth := c.lineDepth + 1 }
  | _ => c

end Cursor

/-- What a search for the next statement comes to. The cursor is the one behind the last line that
was looked at. -/
inductive Search where
  | exhausted (cursor : Cursor)
  | fault (cursor : Cursor) (keyword : BlockKeyword)
  | found (cursor : Cursor) (line : List Char) (s : Statement)
  deriving DecidableEq, Repr

/-- Looks for the next statement to evaluate in the lines from the cursor on. -/
def Search.run (c : Cursor) : List (List Char) → Search
  | [] => .exhausted c
  | line :: rest =>
    let next := c.advance
    match Statement.ofLine line with
    | .blank => run next rest
    | .close =>
      match next.close? with
      | some c => run c rest
      | none => .fault next .close
    | .otherwise =>
      match next.switch? with
      | some c => run c rest
      | none => .fault next .otherwise
    | s => if c.isActive then .found next line s else run (next.skip s) rest

namespace Fiber

def scope (f : Fiber) (env : Environment) (line : List Char) : Scope where
  env
  entity := f.entity
  authority := f.authority
  vars := f.vars
  line

/-- The result of one comparison of a condition; the left side is evaluated first. -/
def compareClause (s : Scope) (c : Clause) : Eval Bool := do
  let a ← s.eval (.parse c.left)
  let b ← s.eval (.parse c.right)
  Eval.ofExcept (c.op.apply a b)

/-- Evaluates a statement. Only a statement evaluated to its end changes the fiber. -/
def execute (s : Scope) (f : Fiber) : Statement → Eval Fiber
  | .declare definition => do
    let (name, value) ← Eval.ofExcept (Statement.splitDefinition definition)
    let name := String.ofList name
    if f.vars.contains name then Eval.fail (.variableDefined name)
    else
      let v ← s.eval (.parse value)
      return { f with vars := f.vars.insert name v }
  | .branch condition => do
    let taken ← (Condition.parse condition).evaluate (compareClause s)
    return { f with cursor := f.cursor.enter (← Eval.ofExcept taken) }
  | .assign target value => do
    let name := String.ofList target
    if !Chain.isIdentifier target then Eval.fail .invalidVariable
    else if !f.vars.contains name then Eval.fail (.variableNotDefined name)
    else
      let v ← s.eval (.parse value)
      return { f with vars := f.vars.insert name v }
  | .bare chain => do
    let _ ← s.evalChain false (Link.parse chain)
    return f
  | .blank | .close | .otherwise => return f

/-- Looks for the next statement in the coming lines. At the end of the script the fiber starts
over once, if it has evaluated something since its last start. -/
def nextStatement (f : Fiber) (coming : List (List Char)) (evaluated : Bool) : Fiber × Search :=
  match Search.run f.cursor coming with
  | .exhausted c =>
    if evaluated && !f.lines.isEmpty then (f.restart, Search.run f.restart.cursor f.lines)
    else (f, .exhausted c)
  | r => (f, r)

/-- The end of a fiber as an outcome. -/
def terminate (f : Fiber) (ending : Ending) (line : Option Nat) (w : World) :
    Outcome × Fiber × World :=
  (.terminated (f.termination ending line), f.ended, w)

/-- The world after a pause was asked for. An entity that is gone needs no cooldown. -/
def coolDown (f : Fiber) (ticks : Nat) (w : World) : World :=
  if ticks = 0 then w
  else
    match w.extendCooldown f.entity ticks with
    | .ok w => w
    | .error _ => w

/-- Runs statements with a budget. A call that wants a value leaves the cursor on its line. -/
def runStatements (env : Environment) (budget : Nat) (f : Fiber) (coming : List (List Char))
    (evaluated : Bool) (w : World) : Outcome × Fiber × World :=
  match f.nextStatement coming evaluated with
  | (f, .exhausted c) => (.yielded, { f with cursor := c }, w)
  | (f, .fault c k) => { f with cursor := c }.terminate (.failed (.unexpectedKeyword k)) c.line w
  | (f, .found c line s) =>
    let f := { f with cursor := c }
    match budget with
    | 0 => f.terminate (.failed .budgetExceeded) c.line w
    | budget + 1 =>
      match (execute (f.scope env line) f s).run { world := w } with
      | .ok f st =>
        match st.pause with
        | some ticks => (.yielded, { f with state := .sleeping }, f.coolDown ticks st.world)
        | none => runStatements env budget f (f.lines.drop c.line) true st.world
      | .error (.error e) st => f.terminate (.failed e) c.line st.world
      | .error (.exit v) st => f.terminate (.exited v) none st.world
      | .error (.call request) st =>
        let cursor := if request.resume.isSome then { c with line := c.line - 1 } else c
        (.called request, { f with cursor, enabled := false, state := .awaiting }, st.world)

/-- Runs statements from the cursor on, where `resumed` replaces the text of the first line. -/
def run (env : Environment) (f : Fiber) (resumed : Option (List Char)) (w : World) :
    Outcome × Fiber × World :=
  let coming :=
    match resumed with
    | some line => line :: f.lines.drop (f.cursor.line + 1)
    | none => f.lines.drop f.cursor.line
  f.runStatements env env.limits.tokenBudget coming true w

/-- Goes on with a result that has been handed over, if there is one. -/
def resume (env : Environment) (f : Fiber) (w : World) : Outcome × Fiber × World :=
  let line := some (f.cursor.line + 1)
  match f.received, f.pending with
  | some (.failed e), pending =>
    { f with received := none }.terminate (.failed e) (pending.bind fun _ => line) w
  | some (.value v), some p =>
    let f := { f with received := none, pending := none }
    match replaceFirst? p.statement v.literal.toList p.line with
    | some text => f.run env (some text) w
    | none => f.terminate (.failed (.lostResume (String.ofList p.statement))) line w
  | some (.value _), none => { f with received := none }.run env none w
  | none, _ => f.run env none w

/-- Activates a fiber. It runs if it waits for nobody, its entity can act, and it has not run in
this tick; `forced` lifts the last condition. -/
def activate (env : Environment) (forced : Bool) (f : Fiber) (w : World) :
    Outcome × Fiber × World :=
  if !f.enabled || !f.valid then (.skipped, f, w)
  else
    match w.entity? f.entity with
    | none => f.terminate (.failed (.nullReference f.entity.reference)) none w
    | some e =>
      if !e.canAct then (.skipped, f, w)
      else if !forced && f.lastTick == some env.tick then (.skipped, f, w)
      else { f with lastTick := some env.tick, state := .running, awaiting := none }.resume env w

end Fiber

end TileScript
