import DebugSymbols.Machine

/-!
What an import can be told.
-/

namespace DebugSymbols

structure Config where
  machine : Machine := .x86
  /-- How deep types may refer to each other while they are resolved. -/
  maxResolveDepth : Nat := 512
  /-- How many underscores may be put after a name to tell it from others. -/
  maxNameSuffixes : Nat := 256
  /-- Whether the offset cache is kept in the database when a session ends. -/
  persistCache : Bool := true
  /-- The key of the blob that the offset cache is kept in. -/
  cacheKey : String := "dwarfimport.offset_cache"
deriving DecidableEq, Repr

end DebugSymbols
