import Std.Data.ExtTreeMap
import TileScript.Function.Descriptor

/-! # The table of functions

All functions, numbered in the order of their keys. A function that a type declares is in the table
also when no script defines it.
-/

namespace TileScript

open Text

structure FunctionTable where
  functions : List FunctionDescriptor := []
  deriving DecidableEq, Repr

namespace FunctionTable

/-- The owner as written and the parameter count, by key. -/
abbrev Entries := Std.ExtTreeMap FunctionKey (String × Int)

/-- Numbers the entries in the order of their keys. -/
def ofEntries (entries : Entries) : FunctionTable where
  functions := entries.toList.zipIdx.map fun ((key, owner, parameterCount), id) =>
    { id, category := key.category, owner, name := key.name, parameterCount }

/-- The entries of a list; of entries with equal keys the last one counts. -/
def ofList (entries : List (Category × String × String × Int)) : FunctionTable :=
  ofEntries <| entries.foldl (fun t (category, owner, name, count) =>
    t.insert (.of category owner name) (owner, count)) {}

/-- The declared functions, none of them defined. -/
def declaredEntries (declared : List DeclaredFunction) : Entries :=
  declared.foldl (fun t d =>
    t.insertIfNew (.of d.category d.owner d.name) (d.owner, undefinedParameters)) {}

/-- Adds the function in a file. A file that is not named like one is passed over. -/
def scanFile (source : ScriptSource) (category : Category) (entries : Entries) (file : String) :
    Except SetupError Entries :=
  match splitFunctionName? file with
  | none => .ok entries
  | some (owner, name) =>
    match source.load? category file with
    | none => .error (.scriptNotFound file)
    | some text =>
      match parameterCount text with
      | .error d => .error (.invalidFunction file d.message)
      | .ok count => .ok (entries.insert (.of category owner name) (owner, count.getD 0))

def scanCategory (source : ScriptSource) (entries : Entries) (category : Category) :
    Except SetupError Entries := do
  (← source.list category).foldlM (scanFile source category) entries

/-- The functions of a source together with the declared ones. -/
def scan (source : ScriptSource) (declared : List DeclaredFunction) :
    Except SetupError FunctionTable := do
  return ofEntries (← Category.functions.foldlM (scanCategory source) (declaredEntries declared))

def get? (t : FunctionTable) (id : Nat) : Option FunctionDescriptor := t.functions[id]?

/-- The numbers by key. -/
def index (t : FunctionTable) : Std.ExtTreeMap FunctionKey Nat :=
  t.functions.foldl (fun m f => m.insert f.key f.id) {}

/-- The function with a key; the case of the owner's ASCII letters does not matter. -/
def lookup? (t : FunctionTable) (category : Category) (owner name : String) :
    Option FunctionDescriptor :=
  (t.index[FunctionKey.of category owner name]?).bind t.get?

/-- The numbers of the functions of an owner. -/
def functionsFor (t : FunctionTable) (category : Category) (owner : String) : List Nat :=
  (t.functions.filter fun f => f.category == category && sameLetters f.owner owner).map (·.id)

end FunctionTable

end TileScript
