import TileScript.Error
import TileScript.Text.Numeral
import TileScript.Value

/-! # Failure codes

A system function reports a failure in its return data, as `!E` with a code and a message. Decoding
gives the code back, and the calling script stops with the error it stands for.
-/

namespace TileScript

open Text

/-- What a system function is called on. -/
inductive Accessor where
  | none
  /-- The root `_` of scripts with full authority. -/
  | authority
  /-- The storage of the calling entity. -/
  | items
  /-- A value from earlier in the chain. -/
  | target (v : Value)
  deriving DecidableEq, Repr

namespace Accessor

def text : Accessor → String
  | .none => "NULL"
  | .authority => "_"
  | .items => "items"
  | .target v => v.literal

/-- The accessor a chain goes on with after a value, or after none. -/
def ofValue? : Option Value → Accessor
  | some v => .target v
  | .none => .none

end Accessor

/-- Why a system function failed. -/
inductive Sentinel where
  | unknownFunction
  | wrongArity (expected : UInt64)
  | nullReference
  | resource (reason : String)
  | custom (reason : String)
  | notImplemented
  deriving DecidableEq, Repr

namespace Sentinel

/-- The return data that stands for a failure. -/
def encode : Sentinel → String
  | .unknownFunction => "!E1000"
  | .wrongArity n => "!E1001 " ++ n.toNat.repr
  | .nullReference => "!E1002"
  | .resource r => "!E1003 " ++ r
  | .custom r => "!E9000 " ++ r
  | .notImplemented => "!E9999"

/-- The failure with a code and the text behind it. -/
def ofCode (code : String) (argument : List Char) : Sentinel :=
  if code = "1000" then .unknownFunction
  else if code = "1001" then .wrongArity (.ofNat ((readNat64? (trim argument)).getD 0))
  else if code = "1002" then .nullReference
  else if code = "1003" then .resource (String.ofList argument)
  else if code = "9000" then .custom (String.ofList argument)
  else if code = "9999" then .notImplemented
  else .custom ("Unknown error code " ++ code)

/-- The failure that return data stands for, if it is one. -/
def decode? (data : String) : Option Sentinel :=
  (afterPrefix? "!E".toList data.toList).map fun body =>
    let (code, argument) := (splitOnce? ' ' body).getD (body, [])
    ofCode (String.ofList code) argument

/-- The error of a script that called `function` on `accessor` with `got` parameters. -/
def toError (s : Sentinel) (accessor : Accessor) (function : String) (got : Nat) : ScriptError :=
  let path := accessor.text ++ ":" ++ function
  match s with
  | .unknownFunction => .unknownFunction path
  | .wrongArity expected => .arity function expected.toNat got
  | .nullReference => .nullReference path
  | .resource r => .resource r
  | .custom r => .custom r
  | .notImplemented => .notImplemented path

end Sentinel

end TileScript
