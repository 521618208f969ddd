import TileScript.Id

/-! # Errors

What can stop a script, what the world refuses, and what can go wrong while scripts are set up.
Each cause is a constructor; the wording stands in one `message` function per type.
-/

namespace TileScript

/-- The words that close a block or switch its branch. -/
inductive BlockKeyword where
  | close
  | otherwise
  deriving DecidableEq, Repr

def BlockKeyword.text : BlockKeyword → String
  | .close => "end"
  | .otherwise => "else"

/-- The family a script error belongs to. -/
inductive ErrorKind where
  | parse
  | reference
  | auth
  | arity
  | resource
  | budgetExceeded
  | unknownOperator
  | custom
  | notImplemented
  deriving DecidableEq, Repr

/-- Why a script stopped. Every script error ends the script that raised it. -/
inductive ScriptError where
  /-- A block keyword where no block is open. -/
  | unexpectedKeyword (keyword : BlockKeyword)
  | unclosedBlock
  | invalidVariable
  | invalidCondition (condition : String)
  | emptyExpression
  | malformedCall (call : String)
  | notANumber (literal : String)
  | arithmetic (operation : String)
  /-- The line to resume no longer holds the call it waited for. -/
  | lostResume (statement : String)
  | variableDefined (name : String)
  | variableNotDefined (name : String)
  | nullReference (what : String)
  | unknownFunction (name : String)
  /-- A type declares the function but no script defines it. -/
  | undefinedFunction (name : String)
  | scriptNotFound (name : String)
  | emptyScript (name : String)
  | unauthenticated
  | outOfRange (distance max : Int32)
  | notFacing
  | itemNotHeld (item : ItemId)
  | arity (function : String) (expected got : Nat)
  | resource (reason : String)
  | callDepthExceeded (max : Nat)
  | budgetExceeded
  | unknownOperator (operator : String)
  | custom (reason : String)
  | notImplemented (name : String)
  deriving DecidableEq, Repr

namespace ScriptError

def kind : ScriptError → ErrorKind
  | .unexpectedKeyword _ | .unclosedBlock | .invalidVariable | .invalidCondition _
  | .emptyExpression | .malformedCall _ | .notANumber _ | .arithmetic _ | .lostResume _ => .parse
  | .variableDefined _ | .variableNotDefined _ | .nullReference _ | .unknownFunction _
  | .undefinedFunction _ | .scriptNotFound _ | .emptyScript _ => .reference
  | .unauthenticated | .outOfRange _ _ | .notFacing | .itemNotHeld _ => .auth
  | .arity _ _ _ => .arity
  | .resource _ | .callDepthExceeded _ => .resource
  | .budgetExceeded => .budgetExceeded
  | .unknownOperator _ => .unknownOperator
  | .custom _ => .custom
  | .notImplemented _ => .notImplemented

def message : ScriptError → String
  | .unexpectedKeyword k => "Unexpected '" ++ k.text ++ "'"
  | .unclosedBlock => "Missing 'end' for block"
  | .invalidVariable => "Invalid variable definition syntax"
  | .invalidCondition c => "Invalid condition: " ++ c
  | .emptyExpression => "Empty expression"
  | .malformedCall c => "Malformed call '" ++ c ++ "'"
  | .notANumber l => "Expected a number, got " ++ l
  | .arithmetic o => "Arithmetic error: " ++ o
  | .lostResume s => "Cannot resume call '" ++ s ++ "'"
  | .variableDefined n => "Variable '" ++ n ++ "' already defined"
  | .variableNotDefined n => "Variable '" ++ n ++ "' not defined"
  | .nullReference w => "Null object reference (" ++ w ++ ")"
  | .unknownFunction n => "Referencing non-existent function " ++ n
  | .undefinedFunction n => "Referencing non-defined function " ++ n
  | .scriptNotFound n => "Script not found: " ++ n
  | .emptyScript n => "Script " ++ n ++ " is empty"
  | .unauthenticated => "Invalid authentication"
  | .outOfRange d m => "Target out of range (" ++ d.toInt.repr ++ " > " ++ m.toInt.repr ++ ")"
  | .notFacing => "Not facing target"
  | .itemNotHeld i => "Item " ++ i.text ++ " is not held by the caller"
  | .arity f e g =>
    "Invalid number of parameters got for function [" ++ f ++ "] " ++ g.repr ++ ", " ++ e.repr ++
      " expected"
  | .resource r => r
  | .callDepthExceeded m => "Call depth exceeded (" ++ m.repr ++ ")"
  | .budgetExceeded => "Logic tokens drained"
  | .unknownOperator o => "Invalid conditional operator '" ++ o ++ "'"
  | .custom r => r
  | .notImplemented n => "Not implemented: [" ++ n ++ "]"

end ScriptError

/-- Why the world refused an operation. -/
inductive WorldError where
  | entityNotFound (id : EntityId)
  | unknownEntityType (id : UInt32)
  | unknownItemType (id : UInt32)
  | noStorage (id : EntityId)
  | inventoryFull (id : EntityId)
  /-- Only its owner may command an entity. -/
  | notAuthorized (entity : EntityId) (sender owner : Int32)
  deriving DecidableEq, Repr

def WorldError.message : WorldError → String
  | .entityNotFound id => "entity not found: " ++ id.text
  | .unknownEntityType id => "unknown entity type: " ++ id.toNat.repr
  | .unknownItemType id => "unknown item type: " ++ id.toNat.repr
  | .noStorage _ => "Entity has no item storage"
  | .inventoryFull _ => "Inventory full"
  | .notAuthorized e s o =>
    "command from owner " ++ s.toInt.repr ++ " rejected by entity " ++ e.text ++ " (owner " ++
      o.toInt.repr ++ ")"

/-- Why scripts could not be found or attached. -/
inductive SetupError where
  | scriptNotFound (name : String)
  | emptyScript
  | invalidFunction (file reason : String)
  | unreadable (path reason : String)
  | world (e : WorldError)
  deriving DecidableEq, Repr

def SetupError.message : SetupError → String
  | .scriptNotFound n => "script not found: " ++ n
  | .emptyScript => "cannot attach empty script"
  | .invalidFunction f r => "invalid function script " ++ f ++ ": " ++ r
  | .unreadable p r => "cannot read " ++ p ++ ": " ++ r
  | .world e => e.message

end TileScript
