import DebugSymbols.Dwarf.Location
import DebugSymbols.Machine

/-!
The base of a function's stack frame, relative to which its stack variables are described.
A frame base that is given as a location list may move during the function, so it consists of
areas, each with an offset of its own.
-/

namespace DebugSymbols

/-- A frame base that holds for the addresses in a range. -/
structure OffsetArea where
  range : AddressRange
  /-- Relative to the register that the base is given by. -/
  offset : Int64
  /-- Whether that register is the frame pointer. -/
  usesFramePointer : Bool
deriving DecidableEq, Repr

structure FrameBase where
  /-- None if the frame base cannot be interpreted. -/
  areas : List OffsetArea
  /-- The offset of a frame base that holds throughout the function. -/
  base : Int64
  /-- Whether some area comes from a location list. -/
  fromList : Bool
deriving DecidableEq, Repr

namespace FrameBase

def empty : FrameBase := ⟨[], 0, false⟩

/-- The offset of a base, and whether it is relative to the frame pointer. -/
def anchor? (machine : Machine) : LocationAtom → Option (Int64 × Bool)
  | .registerOffset number offset => some (offset, number == machine.framePointer)
  | .register number => some (0, number == machine.framePointer)
  | .callFrameAddress => some (0, false)
  | _ => none

/-- Takes another description into account; one that is no single anchor is ignored. -/
def add (function : AddressRange) (machine : Machine) (frame : FrameBase) (l : Location) :
    FrameBase :=
  match l.single?.bind (anchor? machine) with
  | none => frame
  | some (offset, usesFramePointer) =>
    match l.range with
    | some range =>
      { frame with areas := frame.areas ++ [⟨range, offset, usesFramePointer⟩], fromList := true }
    | none =>
      { frame with areas := frame.areas ++ [⟨function, offset, usesFramePointer⟩], base := offset }

def ofLocations (locations : List Location) (function : AddressRange) (machine : Machine) :
    FrameBase :=
  locations.foldl (add function machine) empty

/-- The stack offset of a variable at the given distance from the frame base.  Within a frame
base of several areas a variable with a range of its own belongs to the first area that covers
it, and one without to the first area that is relative to the frame pointer. -/
def stackOffset? (frame : FrameBase) (range : Option AddressRange) (operand : Int64) :
    Option Int64 :=
  if frame.areas.isEmpty then none
  else if !frame.fromList then some (frame.base + operand)
  else
    let area? : Option OffsetArea :=
      match range with
      | some range => frame.areas.find? fun a => a.range.covers range
      | none => frame.areas.find? fun a => a.usesFramePointer
    area?.map fun a => a.offset + operand

end FrameBase

end DebugSymbols
