import TileScript.Json.Basic

/-! # Writing JSON

A document is written on one line, or over several lines with two spaces per level. Strings escape
quotes, backslashes and control characters only.
-/

namespace TileScript.Json

def hexDigit (n : Nat) : Char := (Nat.toDigits 16 n).headD '0'

/-- A character inside a string. -/
def escape (c : Char) : List Char :=
  if c = '"' then ['\\', '"']
  else if c = '\\' then ['\\', '\\']
  else if c = '\n' then ['\\', 'n']
  else if c = '\r' then ['\\', 'r']
  else if c = '\t' then ['\\', 't']
  else if c = '\x08' then ['\\', 'b']
  else if c = '\x0c' then ['\\', 'f']
  else if c.toNat < 0x20 then
    ['\\', 'u', '0', '0', hexDigit (c.toNat / 16), hexDigit (c.toNat % 16)]
  else [c]

def quote (s : String) : List Char := '"' :: s.toList.flatMap escape ++ ['"']

def Number.render (n : Number) : List Char :=
  (if n.negative then ['-'] else []) ++ Nat.toDigits 10 n.digits ++
    (if n.integral then [] else 'e' :: n.scale.repr.toList)

/-- The break before an item or a closing bracket; a document on one line has none. -/
def lineBreak : Option Nat → List Char
  | none => []
  | some level => '\n' :: List.replicate (2 * level) ' '

/-- What stands between a name and its value. -/
def colon (level : Option Nat) : List Char := if level.isSome then [':', ' '] else [':']

mutual

/-- The text of a document at an indentation level, or on one line. -/
def render (level : Option Nat) : Json → List Char
  | .null | .garbled => "null".toList
  | .bool true => "true".toList
  | .bool false => "false".toList
  | .number n => n.render
  | .string s => quote s
  | .array [] => ['[', ']']
  | .array (v :: vs) => '[' :: renderItems (level.map (· + 1)) (v :: vs) ++ lineBreak level ++ [']']
  | .object [] => ['\x7b', '\x7d']
  | .object (m :: ms) =>
    '\x7b' :: renderMembers (level.map (· + 1)) (m :: ms) ++ lineBreak level ++ ['\x7d']

def renderItems (level : Option Nat) : List Json → List Char
  | [] => []
  | [v] => lineBreak level ++ render level v
  | v :: vs => lineBreak level ++ render level v ++ ',' :: renderItems level vs

def renderMembers (level : Option Nat) : List (String × Json) → List Char
  | [] => []
  | [(name, v)] => lineBreak level ++ quote name ++ colon level ++ render level v
  | (name, v) :: ms =>
    lineBreak level ++ quote name ++ colon level ++ render level v ++ ',' :: renderMembers level ms

end

section Equations

variable (level : Option Nat) (v w : Json) (vs : List Json) (name : String)
  (m : String × Json) (ms : List (String × Json))

@[simp] theorem render_null : render level .null = "null".toList := rfl

@[simp] theorem render_garbled : render level .garbled = "null".toList := rfl

@[simp] theorem render_true : render level (.bool true) = "true".toList := rfl

@[simp] theorem render_false : render level (.bool false) = "false".toList := rfl

@[simp] theorem render_number (n : Number) : render level (.number n) = n.render := rfl

@[simp] theorem render_string (s : String) : render level (.string s) = quote s := rfl

@[simp] theorem render_array_nil : render level (.array []) = ['[', ']'] := rfl

@[simp] theorem render_array_cons :
    render level (.array (v :: vs)) =
      '[' :: renderItems (level.map (· + 1)) (v :: vs) ++ lineBreak level ++ [']'] := rfl

@[simp] theorem render_object_nil : render level (.object []) = ['\x7b', '\x7d'] := rfl

@[simp] theorem render_object_cons :
    render level (.object (m :: ms)) =
      '\x7b' :: renderMembers (level.map (· + 1)) (m :: ms) ++ lineBreak level ++ ['\x7d'] := rfl

theorem renderItems_singleton : renderItems level [v] = lineBreak level ++ render level v := rfl

theorem renderItems_cons_cons :
    renderItems level (v :: w :: vs) =
      lineBreak level ++ render level v ++ ',' :: renderItems level (w :: vs) := rfl

theorem renderMembers_singleton :
    renderMembers level [(name, v)] =
      lineBreak level ++ quote name ++ colon level ++ render level v := rfl

theorem renderMembers_cons_cons :
    renderMembers level ((name, v) :: m :: ms) =
      lineBreak level ++ quote name ++ colon level ++ render level v ++
        ',' :: renderMembers level (m :: ms) := rfl

end Equations

/-- The document over several lines. -/
def pretty (j : Json) : String := String.ofList (j.render (some 0))

/-- The document on one line. -/
def compact (j : Json) : String := String.ofList (j.render none)

end TileScript.Json
