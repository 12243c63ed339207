import DebugSymbols.Dwarf.Attribute

/-!
The headers of line number tables.  Nothing is taken from a table, but a unit that refers to
one whose header is malformed is malformed itself.
-/

namespace DebugSymbols.LineTable

open Read

/-! ## Directories and files up to version four -/

/-- Fails at the end of a list of file names, which an empty name marks. -/
def readName : Read (Option ByteArray) := do
  let name ← terminated
  return if name.isEmpty then none else some name

/-- A file with the number of its directory, its time and its size. -/
def readFile : Read (Option ByteArray) := do
  match ← readName with
  | none => return none
  | some name =>
    let _ ← times uleb 3
    return some name

def readNames : Read Unit := do
  let _ ← untilNone readName
  let _ ← untilNone readFile

/-! ## Directories and files since version five -/

/-- The forms that a field of a directory or a file can have. -/
def fieldForms : List Form :=
  [.block1, .block2, .block4, .block, .data1, .data2, .data4, .data8, .data16, .udata, .sdata,
    .flag, .secOffset, .string, .strp, .strpSup, .lineStrp, .strx, .strx1, .strx2, .strx3, .strx4]

/-- The code of the one field that a list of directories or files has to have. -/
def pathField : UInt64 := 1

/-- The codes and the forms of the fields, one of them the path. -/
def readFormat : Read (List UInt16) := do
  let fields ← times (do return (← uleb, ← uleb16)) (← byte).toNat
  if (fields.filter (·.1 = pathField)).length = 1 then return fields.map (·.2) else failure

def readField (enc : Encoding) (code : UInt16) : Read AttributeValue :=
  match Form.ofCode? code with
  | some form =>
    if form ∈ fieldForms then AttributeValue.readDirect enc ⟨⟨0⟩, code, none⟩ form else failure
  | none => failure

/-- A list of directories or files, behind the format and the number of its items. -/
def readItems (enc : Encoding) : Read Unit := do
  let format ← readFormat
  let _ ← times (format.mapM (readField enc)) (← uleb).toNat

/-! ## The header -/

/-- The part of a header that its own length covers. -/
def readTables (enc : Encoding) : Read Unit := do
  let instructionLength ← byte
  if instructionLength = 0 then failure
  if 4 ≤ enc.version then
    let operations ← byte
    if operations = 0 then failure
  -- whether rows are statements at first, and the least step between lines
  skip 2
  let lineRange ← byte
  if lineRange = 0 then failure
  let opcodeBase ← byte
  if opcodeBase = 0 then failure
  skip (opcodeBase.toNat - 1)
  if enc.version ≤ 4 then readNames
  else
    readItems enc
    readItems enc

/-- Reads a header of which the length field has been read. -/
def readHeader (size : OffsetSize) (addressWidth : Nat) : Read Unit := do
  let version := (← u16).toNat
  if version < 2 ∨ 5 < version then failure
  let mut width := addressWidth
  if 5 ≤ version then
    width ← addressSize
    let segmentSize ← byte
    if segmentSize ≠ 0 then failure
  let header ← bytes (← offset size).toNat
  let _ ← (readTables ⟨version, size, width⟩).run' header

/-- Reads the header of the table that starts here. -/
def read (addressWidth : Nat) : Read Unit := do
  let (length, size) ← initialLength
  let table ← bytes length
  let _ ← (readHeader size addressWidth).run' table

/-- Whether a table with a well-formed header starts at the offset. -/
def wellFormedAt (data : ByteArray) (addressWidth : Nat) (offset : UInt64) : Bool :=
  ((read addressWidth).runAt data offset.toNat).isSome

end DebugSymbols.LineTable
