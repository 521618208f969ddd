import TileScript.Script.Source
import TileScript.Text.Search

/-! # Scripts in directories

Files are seen by their paths: the text of a file, and the names in a directory. A script lies in
the directory of its category, in a file that ends in `.script`.
-/

namespace TileScript

/-- Why a file gives no text. -/
inductive ReadError where
  | notFound
  | notADirectory
  | isDirectory
  | nameTooLong
  | notText
  | failed (reason : String)
  deriving DecidableEq, Repr

def ReadError.message : ReadError → String
  | .notFound => "No such file or directory (os error 2)"
  | .notADirectory => "Not a directory (os error 20)"
  | .isDirectory => "Is a directory (os error 21)"
  | .nameTooLong => "File name too long (os error 36)"
  | .notText => "stream did not contain valid UTF-8"
  | .failed reason => reason

/-- What can be read at paths. -/
structure Files where
  read : String → Except ReadError String
  /-- The names in a directory, in any order; `none` if the path is not one. -/
  list? : String → Option (List String)

/-- A path below another one; an absolute path stays as it is. -/
def joinPath (base name : String) : String :=
  if name.toList.head? = some '/' then name
  else if base.toList.getLast? = some '/' ∨ base = "" then base ++ name
  else base ++ "/" ++ name

/-- A file name cut at its last dot. -/
def splitExtension? (name : String) : Option (List Char × List Char) :=
  (Text.splitOnce? '.' name.toList.reverse).map fun (ext, stem) => (stem.reverse, ext.reverse)

/-- The name of the script in a file, if it is one: the extension is `script` and something stands
before it. -/
def scriptStem? (file : String) : Option String :=
  match splitExtension? file with
  | some (c :: stem, ext) => if ext = "script".toList then some (String.ofList (c :: stem)) else none
  | _ => none

/-- Where the script of a category lies below a directory. -/
def scriptPath (root : String) (c : Category) (name : String) : String :=
  joinPath (joinPath root c.name) (name ++ ".script")

/-- The scripts below a directory, listed in the order of their names. -/
def ScriptSource.ofDirectory (files : Files) (root : String) : ScriptSource where
  list c :=
    let names := (files.list? (joinPath root c.name)).getD []
    .ok ((names.filterMap scriptStem?).mergeSort fun a b => (compare a b).isLE)
  load? c name := (files.read (scriptPath root c name)).toOption

end TileScript
