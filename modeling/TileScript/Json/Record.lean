import Std.Data.ExtTreeMap
import TileScript.Json.Basic
import TileScript.Text.Numeral

/-! # Reading records

A record is an object with known names, each at most once, or an array of the fields in their order
of which the last ones may be left out. Names that are not known are ignored with their values.
-/

namespace TileScript.Json

/-- The known fields that a document gives. -/
abbrev Fields := List (String × Json)

/-- The fields of a record with the names `names`. -/
def fields? (names : List String) : Json → Option Fields
  | .object ms =>
    let known := ms.filter fun (name, _) => names.contains name
    if names.all fun name => (known.filter (·.1 == name)).length ≤ 1 then some known else none
  | .array vs => if vs.length ≤ names.length then some (names.zip vs) else none
  | _ => none

/-- A field that must be given. -/
def Fields.required? {α : Type} (fs : Fields) (name : String) (read? : Json → Option α) : Option α :=
  (fs.lookup name).bind read?

/-- A field that has a value when it is not given. -/
def Fields.default? {α : Type} (fs : Fields) (name : String) (read? : Json → Option α) (value : α) :
    Option α :=
  match fs.lookup name with
  | none => some value
  | some j => read? j

def bool? : Json → Option Bool
  | .bool b => some b
  | _ => none

def string? : Json → Option String
  | .string s => some s
  | _ => none

def int? : Json → Option Int
  | .number n => n.toInt?
  | _ => none

def int64? (j : Json) : Option Int64 := j.int?.bind toInt64?

def int32? (j : Json) : Option Int32 := j.int?.bind toInt32?

def uint32? (j : Json) : Option UInt32 := j.int?.bind toUInt32?

def nat64? (j : Json) : Option Nat := j.int?.bind toNat64?

def list? {α : Type} (read? : Json → Option α) : Json → Option (List α)
  | .array vs => vs.mapM read?
  | _ => none

/-- `null`, or a value. -/
def option? {α : Type} (read? : Json → Option α) : Json → Option (Option α)
  | .null => some none
  | j => (read? j).map some

/-- An object as a table; of a repeated name the last value counts. -/
def table? {α : Type} (read? : Json → Option α) : Json → Option (Std.ExtTreeMap String α)
  | .object ms => do
    let entries ← ms.mapM fun (name, v) => (read? v).map (name, ·)
    return entries.foldl (fun t (name, a) => t.insert name a) {}
  | _ => none

/-- A table as an object, its names in order. -/
def ofTable {α : Type} (write : α → Json) (t : Std.ExtTreeMap String α) : Json :=
  .object (t.toList.map fun (name, a) => (name, write a))

end TileScript.Json
