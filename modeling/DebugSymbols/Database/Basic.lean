import DebugSymbols.AddressRange
import DebugSymbols.Database.Handle
import DebugSymbols.Database.Width
import DebugSymbols.SortedMap

/-!
The symbol database: one namespace of named types, the enumerations and structures behind some
of them, and what is known about the addresses and functions of the program.
-/

namespace DebugSymbols

/-! ## Types -/

/-- What a named type is.  Two named types are the same if name and shape agree. -/
inductive TypeShape where
  /-- No values; unspecified types are void as well. -/
  | void
  /-- A declaration that may be completed later. -/
  | incomplete
  | bool (width : BoolWidth)
  | int (width : IntWidth) (signed isChar : Bool)
  | float (width : FloatWidth)
  | const (inner : Ordinal)
  | volatile (inner : Ordinal)
  | pointer (target : Ordinal)
  /-- The count is the upper bound on record, zero when there is none. -/
  | array (element : Ordinal) (count : UInt64)
  /-- Another name for the type called `target`. -/
  | typedef (target : String)
  | struct (id : StructId)
  | union (id : StructId)
  | enum (id : EnumId)
  | function (result : Ordinal)
deriving DecidableEq, Repr

structure NamedType where
  name : String
  shape : TypeShape
deriving DecidableEq, Repr

structure EnumDef where
  name : String
  /-- Storage width in bytes. -/
  width : UInt8
  ordinal : Ordinal
  /-- In the order of their addition. -/
  constants : List (String × UInt64)
deriving DecidableEq, Repr

/-- The type that a member, a variable or an address has: an enumeration or a structure by its
own handle, everything else by its name. -/
inductive TypeLink where
  | enum (id : EnumId)
  | struct (id : StructId)
  | named (ordinal : Ordinal)
deriving DecidableEq, Repr

structure Member where
  name : String
  offset : UInt64
  size : UInt64
  type : TypeLink
deriving DecidableEq, Repr

/-- A structure, or a union, all of whose members share their place. -/
structure StructDef where
  name : String
  isUnion : Bool
  ordinal : Ordinal
  /-- In the order of their offsets. -/
  members : List Member
deriving DecidableEq, Repr

/-! ## Variables -/

/-- A variable at a fixed place in the stack frame of a function. -/
structure StackVariable where
  name : String
  offset : Int64
  /-- Zero for a variable without a type. -/
  size : UInt64
  type : Option TypeLink
deriving DecidableEq, Repr

/-- A variable that is held in a register while the program is within a range. -/
structure RegisterVariable where
  range : AddressRange
  register : String
  name : String
deriving DecidableEq, Repr

/-! ## The database -/

structure Database where
  pointerSize : UInt64
  /-- The type at index `n` has ordinal `n + 1`. -/
  types : Array NamedType
  enums : Array EnumDef
  structs : Array StructDef
  /-- The end of each function, by its start. -/
  functions : SortedMap UInt64 UInt64
  /-- The type and size of the value at an address. -/
  applied : SortedMap UInt64 (TypeLink × UInt64)
  /-- The name of an address, and whether it is local to a function. -/
  names : SortedMap UInt64 (String × Bool)
  /-- By the start of the function. -/
  stackVariables : SortedMap UInt64 (List StackVariable)
  registerVariables : SortedMap UInt64 (List RegisterVariable)
  blobs : SortedMap String (List UInt8)
  /-- The number in the last name that was made up.  All numbers up to it are in the name of some
  type, so it fits 32 bits as long as there are fewer than `2 ^ 32` named types. -/
  lastAnonymous : Nat

namespace Database

/-- A database with nothing in it, for a target with pointers of the given size. -/
def empty (pointerSize : UInt64) : Database where
  pointerSize
  types := #[]
  enums := #[]
  structs := #[]
  functions := .empty
  applied := .empty
  names := .empty
  stackVariables := .empty
  registerVariables := .empty
  blobs := .empty
  lastAnonymous := 0

end Database

end DebugSymbols
