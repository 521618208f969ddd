import TileScript.Id

/-! # Items

An item has a number and a type. It lies in no tile; entities hold items in their storage.
-/

namespace TileScript

structure Item where
  id : ItemId
  typeId : UInt32
  deriving DecidableEq, Repr

end TileScript
