import DebugSymbols.Text.Hex

/-!
What can be wrong with an object file and its sections.
-/

namespace DebugSymbols

/-- Relocations are told apart by their offset in the section. -/
inductive ObjectFile.Error where
  /-- The file is missing, or compressed data in it is damaged. -/
  | unreadable
  /-- The file is no object file, or its structure is damaged. -/
  | malformed
  | unsupportedCompression
  | unsupportedRelocation (offset : UInt64)
  | relocationOutOfBounds (offset : UInt64)
  | badRelocationTarget (offset : UInt64)
deriving DecidableEq, Repr

def ObjectFile.Error.message : ObjectFile.Error → String
  | unreadable => "IO error"
  | malformed => "Object file is malformed"
  | unsupportedCompression => "Section is compressed in an unsupported format"
  | unsupportedRelocation offset => "Unsupported relocation at section offset " ++ hex offset.toNat
  | relocationOutOfBounds offset =>
    "Relocation at section offset " ++ hex offset.toNat ++ " is out of bounds"
  | badRelocationTarget offset =>
    "Relocation at section offset " ++ hex offset.toNat ++ " has an invalid target"

end DebugSymbols
