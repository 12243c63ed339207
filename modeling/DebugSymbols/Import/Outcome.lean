import DebugSymbols.Import.Session

/-!
What the resolution of a type comes to, for the entry itself and for those that refer to it.
-/

namespace DebugSymbols

inductive Outcome where
  | type (ordinal : Ordinal) (pending : Bool)
  | useless
  /-- The entry depends on itself, and may be tried again later. -/
  | deferred
deriving DecidableEq, Repr

inductive TypeRef where
  | resolved (ordinal : Ordinal)
  | inProgress
  | missing
deriving DecidableEq, Repr

/-- What a reference to an entry with the outcome amounts to. -/
def Outcome.toRef : Outcome → TypeRef
  | type ordinal _ => .resolved ordinal
  | useless => .missing
  | deferred => .inProgress

/-- Resolves the type whose entry should start at an offset. -/
abbrev Resolver := UInt64 → Step TypeRef

end DebugSymbols
