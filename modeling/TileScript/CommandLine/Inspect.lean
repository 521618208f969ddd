import TileScript.Check
import TileScript.CommandLine.Report
import TileScript.Function.Table
import TileScript.Text.Table

/-! # Inspecting scripts

Two commands look at scripts without running them: one lists the functions below a directory, and
one checks files.
-/

namespace TileScript.CommandLine

def functionRow (f : FunctionDescriptor) : List String :=
  [f.id.repr, f.category.name, f.owner, f.name, f.parameterCount.repr]

def functionTable (t : FunctionTable) : TextTable where
  header := ["Id", "Category", "Owner", "Function", "Params"]
  rows := t.functions.map functionRow

/-- Lists the functions below a directory. -/
def listFunctions (files : Files) (scripts : String) : Report :=
  match FunctionTable.scan (.ofDirectory files scripts) [] with
  | .error e => { failure := some (.functions e) }
  | .ok t =>
    if t.functions.isEmpty then { lines := ["  No function scripts found in " ++ scripts ++ "."] }
    else
      { lines :=
          ["  Functions (" ++ t.functions.length.repr ++ " in " ++ scripts ++ ")", ""] ++
            (functionTable t).lines }

/-- The verdict on a script in a file. -/
def verdictLine (path : String) : Except Problem Unit → String
  | .ok _ => "  ok " ++ path
  | .error p => "  FAIL " ++ path ++ ":" ++ p.line.repr ++ ": " ++ p.error.message

/-- Checks files in order, after `failed` of all `total` had problems. A file that cannot be read
ends the check. -/
def checkRemaining (files : Files) (total failed : Nat) : List String → Report
  | [] => { failure := if failed = 0 then none else some (.problems failed total) }
  | path :: paths =>
    match files.read path with
    | .error e => { failure := some (.unreadable path e) }
    | .ok source =>
      let verdict := check source
      let failed := if verdict.isOk then failed else failed + 1
      let rest := checkRemaining files total failed paths
      { rest with lines := verdictLine path verdict :: rest.lines }

def checkFiles (files : Files) (paths : List String) : Report :=
  checkRemaining files paths.length 0 paths

end TileScript.CommandLine
