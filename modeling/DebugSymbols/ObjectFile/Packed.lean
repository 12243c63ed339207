import DebugSymbols.Bytes.Cursor
import DebugSymbols.ObjectFile.Basic

/-!
Packed sections that are known by their names: their content begins with a mark and its size.
-/

namespace DebugSymbols.StoredContent

open Read

/-- How many bytes the mark and the size take. -/
def markedHeader : Nat := 12

/-- The packed content of a section that starts at an offset of the file. -/
def readMarked? (file : ByteArray) (offset size : Nat) : Option StoredContent := do
  let header : Read Nat := do
    let mark ← bytes 8
    if mark.toList ≠ [0x5a, 0x4c, 0x49, 0x42, 0, 0, 0, 0] then failure
    number .big 4
  let unpacked ← header.runAt file offset
  if size < markedHeader then failure
  let content ← (bytes (size - markedHeader)).runAt file (offset + markedHeader)
  return .packed .zlib content unpacked

end DebugSymbols.StoredContent
