import DebugSymbols.AddressRange

/-!
Location descriptions: where a value lives, or where a stack frame is based.
-/

namespace DebugSymbols

/-- One operation of a location expression.  Operations that name no register, stack slot,
static address or member offset are not told apart. -/
inductive LocationAtom where
  /-- The value is in a register. -/
  | register (number : UInt16)
  /-- In memory, at an offset from what a register holds. -/
  | registerOffset (number : UInt16) (offset : Int64)
  /-- In memory, at an offset from the frame base. -/
  | frameOffset (offset : Int64)
  /-- In memory, at a fixed address. -/
  | address (address : UInt64)
  /-- So much further on; the place of a member in its structure. -/
  | plusConstant (value : UInt64)
  /-- The canonical address of the stack frame. -/
  | callFrameAddress
  | unsupported
deriving DecidableEq, Repr

/-- A location expression, and the range it is confined to if it is an entry of a list. -/
structure Location where
  range : Option AddressRange
  atoms : List LocationAtom
deriving DecidableEq, Repr

namespace Location

def isFromList (l : Location) : Bool := l.range.isSome

/-- The only operation, if there is exactly one. -/
def single? (l : Location) : Option LocationAtom :=
  match l.atoms with
  | [atom] => some atom
  | _ => none

end Location

end DebugSymbols
