import DebugSymbols.Dwarf.Encoding

/-!
The sections that debugging information is spread over, and the look-ups between them.
A section that is missing is empty.
-/

namespace DebugSymbols

structure Sections where
  entries : ByteArray
  abbreviations : ByteArray
  strings : ByteArray
  lineStrings : ByteArray
  stringOffsets : ByteArray
  addresses : ByteArray
  lineTables : ByteArray
  /-- Location lists up to version four. -/
  locations : ByteArray
  /-- Location lists since version five. -/
  locationLists : ByteArray

namespace Sections

/-- Takes every section from a source that knows it by its name. -/
def ofSource (source : String → ByteArray) : Sections where
  entries := source ".debug_info"
  abbreviations := source ".debug_abbrev"
  strings := source ".debug_str"
  lineStrings := source ".debug_line_str"
  stringOffsets := source ".debug_str_offsets"
  addresses := source ".debug_addr"
  lineTables := source ".debug_line"
  locations := source ".debug_loc"
  locationLists := source ".debug_loclists"

/-- The string that starts at an offset. -/
def stringAt? (data : ByteArray) (offset : UInt64) : Option ByteArray :=
  Read.terminated.runAt data offset.toNat

/-- An entry of a table of offsets. -/
def offsetEntry? (data : ByteArray) (size : OffsetSize) (base index : UInt64) : Option UInt64 :=
  (Read.offset size).runAt data (base.toNat + index.toNat * size.bytes)

/-- An entry of the table of addresses. -/
def addressEntry? (s : Sections) (width : Nat) (base index : UInt64) : Option UInt64 :=
  (Read.address width).runAt s.addresses (base.toNat + index.toNat * width)

end Sections

end DebugSymbols
