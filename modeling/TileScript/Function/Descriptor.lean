import TileScript.Script.Source
import TileScript.Text.Blank
import TileScript.Text.Line
import TileScript.Text.Numeral
import TileScript.Text.Search

/-! # Function descriptors

A function belongs to the type whose name stands before the dot in the name of its script. The
script tells the number of its parameters in a directive.
-/

namespace TileScript

open Text

/-- What is known of a function of an entity or an item. -/
structure FunctionDescriptor where
  id : Nat
  category : Category
  /-- The owning type, as written in the name of the script. -/
  owner : String
  name : String
  /-- Negative for a function that no script defines. -/
  parameterCount : Int
  deriving DecidableEq, Repr

/-- The parameter count of a function that is declared but not defined. -/
def undefinedParameters : Int := -1

namespace FunctionDescriptor

def isDefined (f : FunctionDescriptor) : Bool := 0 ≤ f.parameterCount

def scriptName (f : FunctionDescriptor) : String := f.owner ++ "." ++ f.name

end FunctionDescriptor

/-- What tells functions apart: the owner counts without the case of its ASCII letters. -/
structure FunctionKey where
  category : Category
  owner : String
  name : String
  deriving DecidableEq, Repr

namespace FunctionKey

def of (category : Category) (owner name : String) : FunctionKey := ⟨category, lower owner, name⟩

instance : Ord FunctionKey where
  compare := compareLex (compareOn category) (compareLex (compareOn owner) (compareOn name))

instance : Std.TransOrd FunctionKey :=
  inferInstanceAs (Std.TransCmp
    (compareLex (compareOn category) (compareLex (compareOn owner) (compareOn name))))

instance : Std.LawfulEqOrd FunctionKey where
  eq_of_compare {a b} h := by
    change compareLex (compareOn category) (compareLex (compareOn owner) (compareOn name)) a b = .eq
      at h
    simp only [compareLex, compareOn, Ordering.then_eq_eq] at h
    have hc : a.category = b.category := Std.LawfulEqOrd.eq_of_compare h.1
    have ho : a.owner = b.owner := Std.LawfulEqOrd.eq_of_compare h.2.1
    have hn : a.name = b.name := Std.LawfulEqOrd.eq_of_compare h.2.2
    cases a; cases b; cases hc; cases ho; cases hn; rfl

end FunctionKey

def FunctionDescriptor.key (f : FunctionDescriptor) : FunctionKey := .of f.category f.owner f.name

/-- A function that a type declares. -/
structure DeclaredFunction where
  category : Category
  owner : String
  name : String
  deriving DecidableEq, Repr

/-- The owner and the function of `owner.function`; both are there and no further dot is. -/
def splitFunctionName? (file : String) : Option (String × String) :=
  match splitOnce? '.' file.toList with
  | some (owner, name) =>
    if owner.isEmpty || name.isEmpty || name.contains '.' then none
    else some (String.ofList owner, String.ofList name)
  | none => none

/-- A directive that does not give a number of parameters. -/
structure MalformedDirective where
  line : String
  deriving DecidableEq, Repr

def MalformedDirective.message (d : MalformedDirective) : String :=
  "malformed directive '" ++ d.line ++ "'"

namespace ParameterDirective

/-- The number between parentheses behind the directive's word. -/
def count? (argument : List Char) : Option Nat := do
  let inner ← beforeSuffix? [')'] (← afterPrefix? ['('] argument)
  let n ← readInt32? (trim inner)
  if 0 ≤ n.toInt then some n.toInt.toNat else none

/-- The count given by the lines, where `found` was given before them; the last one counts. -/
def scan (found : Option Nat) : List (List Char) → Except MalformedDirective (Option Nat)
  | [] => .ok found
  | line :: rest =>
    match afterPrefix? "$SetNumParams".toList line with
    | none => scan found rest
    | some argument =>
      match count? argument with
      | none => .error ⟨String.ofList line⟩
      | some n => scan (some n) rest

end ParameterDirective

/-- The number of parameters a script asks for, if it says so. -/
def parameterCount (source : String) : Except MalformedDirective (Option Nat) :=
  ParameterDirective.scan none (trimmedLines source)

end TileScript
