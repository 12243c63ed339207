import DebugSymbols.Dwarf.AttributeName
import DebugSymbols.ObjectFile.Error

/-!
What can be wrong with debugging information.
-/

namespace DebugSymbols

inductive DebugInfo.Error where
  | bigEndian
  /-- There is no entry at the offset. -/
  | notFound (offset : UInt64)
  | missingAttribute (name : AttributeName)
  | unsupportedForm (name : AttributeName)
  | unitLimitExceeded
  | treeTooDeep
  | objectFile (error : ObjectFile.Error)
  | malformed
deriving DecidableEq, Repr

def DebugInfo.Error.message : DebugInfo.Error → String
  | bigEndian => "Reader currently doesn't support big endian binaries"
  | notFound offset => "No DIE starts at .debug_info offset " ++ hex offset.toNat
  | missingAttribute name => "Mandatory attribute " ++ toString name ++ " is missing"
  | unsupportedForm name => "Attribute " ++ toString name ++ " is encoded in an unsupported form"
  | unitLimitExceeded => "The input file has too many translation units"
  | treeTooDeep => "The DIE tree of a unit is too deep"
  | objectFile _ => "objfile error"
  | malformed => "DWARF decoding failed"

end DebugSymbols
