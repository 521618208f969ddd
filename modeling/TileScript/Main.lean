import TileScript.CommandLine.Execute

/-! # The executable

Reads the files that an invocation needs, and prints its report.
-/

namespace TileScript.CommandLine

/-- Steps that a script may take in one tick. -/
def stepLimit : Nat := 1000000000

def readError : IO.Error → ReadError
  | .noFileOrDirectory _ _ _ => .notFound
  | .inappropriateType _ 21 _ => .isDirectory
  | .inappropriateType _ _ _ => .notADirectory
  | .invalidArgument _ 36 _ | .invalidArgument _ 0xFFFFFFDC _ => .nameTooLong
  | e => .failed (toString e)

def readText (path : String) : IO (Except ReadError String) := do
  try
    match String.fromUTF8? (← IO.FS.readBinFile path) with
    | some text => return .ok text
    | none => return .error .notText
  catch e => return .error (readError e)

def readNames (path : String) : IO (Option (List String)) := do
  try
    let entries ← (← IO.FS.realPath path).readDir
    return some (entries.toList.map (·.fileName))
  catch _ => return none

/-- The texts and the directories read so far. -/
structure Snapshot where
  texts : List (String × Except ReadError String) := []
  names : List (String × List String) := []

namespace Snapshot

def addText (s : Snapshot) (path : String) : IO Snapshot := do
  return { s with texts := (path, ← readText path) :: s.texts }

/-- Adds a directory with the texts in it. -/
def addDirectory (s : Snapshot) (path : String) : IO Snapshot := do
  match ← readNames path with
  | none => return s
  | some names =>
    names.foldlM (fun s name => s.addText (joinPath path name))
      { s with names := (path, names) :: s.names }

/-- Adds the scripts below a directory. -/
def addScripts (s : Snapshot) (root : String) : IO Snapshot :=
  [Category.entity, .item, .behavior].foldlM (fun s c => s.addDirectory (joinPath root c.name)) s

def files (s : Snapshot) : Files where
  read path := (s.texts.lookup path).getD (.error .notFound)
  list? path := s.names.lookup path

/-- The files that an invocation reads. -/
def take : Invocation → IO Snapshot
  | .run o => do
    let s ← (← addText {} o.scenario).addScripts o.scripts
    match Session.readScenario s.files o.scenario with
    | .error _ => return s
    | .ok scenario =>
      (scenario.entities.filterMap (·.behavior)).foldlM
        (fun s name => s.addText (scriptPath o.scripts .behavior name)) s
  | .functions scripts => addScripts {} scripts
  | .check paths => paths.foldlM addText {}

end Snapshot

def report (args : List String) : IO (Option Report) := do
  match Invocation.parse args with
  | .error stop => return some stop.report
  | .ok i => return i.execute stepLimit (← Snapshot.take i).files

end TileScript.CommandLine

open TileScript.CommandLine in
/-- Prints the report of its arguments; the exit code tells how it ended. -/
def main (args : List String) : IO UInt32 := do
  match ← report args with
  | none =>
    IO.eprintln "error: a script does not come to rest"
    return 1
  | some r =>
    IO.print r.output
    if let some e := r.failure then IO.eprintln ("error: " ++ e.message)
    return UInt32.ofNat r.exitCode
