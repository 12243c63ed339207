/-!
Handles through which types, enumerations and structures are referred to, and how a handle is
written in a message.
-/

namespace DebugSymbols

/-- A named type, numbered from one.  A handle has 32 bits, so the numbers agree with it as long as
there are fewer than `2 ^ 32` named types. -/
structure Ordinal where
  val : Nat
deriving DecidableEq, Repr, Inhabited

/-- An enumeration, numbered from zero.  The number fits the 32 bits of a handle as long as there
are fewer than `2 ^ 32` enumerations. -/
structure EnumId where
  val : Nat
deriving DecidableEq, Repr, Inhabited

/-- A structure or union, numbered from zero.  The number fits the 32 bits of a handle as long as
there are fewer than `2 ^ 32` structures and unions. -/
structure StructId where
  val : Nat
deriving DecidableEq, Repr, Inhabited

instance : ToString Ordinal where
  toString o := "Ordinal(" ++ toString o.val ++ ")"

instance : ToString EnumId where
  toString id := "EnumId(" ++ toString id.val ++ ")"

instance : ToString StructId where
  toString id := "StructId(" ++ toString id.val ++ ")"

end DebugSymbols
