import DebugSymbols.Database.Handle
import DebugSymbols.Dwarf.Error
import DebugSymbols.OffsetCache.Blob

/-!
What can go wrong in an import, and what it warns about.  Trouble with one entry is a warning
and leaves the others alone.
-/

namespace DebugSymbols

inductive ImportError where
  | debugInfo (error : DebugInfo.Error)
  | cache (error : OffsetCache.Error)
  | sizeUnknown (ordinal : Ordinal)
  | resolveDepthExceeded (limit : Nat)
  | nameExhausted (name : String)
  | noDebugInfo
  | unknownOrdinal (ordinal : Ordinal)
  | notAStructure (offset : UInt64)
  | unknownEnum (id : EnumId)
  | unknownStruct (id : StructId)
deriving DecidableEq, Repr

def ImportError.message : ImportError → String
  | debugInfo error => "DWARF: " ++ error.message
  | cache error => "offset cache: " ++ error.message
  | sizeUnknown ordinal => "Size of type " ++ toString ordinal ++ " is unknown"
  | resolveDepthExceeded limit =>
    "Type resolution nested deeper than " ++ toString limit ++ " levels"
  | nameExhausted name => "No free name left for `" ++ name ++ "`"
  | noDebugInfo => "The input doesn't contain any debug information"
  | unknownOrdinal ordinal => "Type " ++ toString ordinal ++ " is unknown to the database"
  | notAStructure offset => "DIE " ++ hex offset.toNat ++ " didn't produce a structure"
  | unknownEnum id => "Enumeration " ++ toString id ++ " is unknown to the database"
  | unknownStruct id => "Structure " ++ toString id ++ " is unknown to the database"

/-- All but the first are about the entry at an offset. -/
inductive Warning where
  | brokenUnit (error : DebugInfo.Error)
  | failed (offset : UInt64) (error : ImportError)
  | baseSize (offset : UInt64) (name : String) (size : UInt64)
  | enumSize (offset size : UInt64)
  | memberSkipped (offset : UInt64) (member : String) (error : ImportError)
  | leftUntyped (offset : UInt64) (error : ImportError)
  | stillPending (offset : UInt64)
  | repairFailed (offset : UInt64) (error : ImportError)
deriving DecidableEq, Repr

def Warning.message : Warning → String
  | brokenUnit error => "skipping broken unit: " ++ error.message
  | failed offset error => about offset ++ error.message
  | baseSize offset name size =>
    about offset ++ "base type `" ++ name ++ "` has unexpected size " ++ toString size
  | enumSize offset size => about offset ++ "enumeration has unexpected size " ++ toString size
  | memberSkipped offset member error =>
    about offset ++ "skipping member `" ++ member ++ "`: " ++ error.message
  | leftUntyped offset error => about offset ++ "leaving untyped: " ++ error.message
  | stillPending offset => about offset ++ "structure still has unresolved members"
  | repairFailed offset error =>
    about offset ++ "failed to repair structure: " ++ error.message
where
  about (offset : UInt64) : String := "DIE " ++ hex offset.toNat ++ ": "

end DebugSymbols
