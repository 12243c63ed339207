import DebugSymbols.Bytes.Order
import DebugSymbols.Compression.Zlib
import DebugSymbols.Compression.Zstd.Stream
import DebugSymbols.Machine
import DebugSymbols.ObjectFile.Relocation

/-!
Object files: sections that are found by their names, unpacked, and relocated if the file is to
be linked yet.
-/

namespace DebugSymbols

/-- The ways to pack the content of a section. -/
inductive Compression where
  | zlib
  | zstd
deriving DecidableEq, Repr

/-- The first bytes of what is packed, or as many as there are. -/
def Compression.unpack? : Compression → ByteArray → Nat → Option ByteArray
  | zlib => Zlib.unpack?
  | zstd => Zstd.unpack?

/-- The content of a section as the file has it. -/
inductive StoredContent where
  | plain (content : ByteArray)
  /-- Packed bytes, and how many there are of them once unpacked. -/
  | packed (compression : Compression) (content : ByteArray) (size : Nat)

/-- Unpacks a content.  A content that turns out to be shorter than stated is accepted. -/
def StoredContent.load : StoredContent → Except ObjectFile.Error ByteArray
  | plain content => .ok content
  | packed compression content size =>
    match compression.unpack? content size with
    | some content => .ok content
    | none => .error .unreadable

structure ObjectSection where
  /-- The name, unless it is unreadable. -/
  name : Option (List UInt8)
  stored : Except ObjectFile.Error StoredContent
  /-- In the order in which they are to be applied. -/
  relocations : List Relocation

/-- How sections are named. -/
inductive ObjectFormat where
  | elf
  | machO
deriving DecidableEq, Repr

namespace ObjectFormat

/-- A name as files hold it. -/
def nameBytes (s : String) : List UInt8 := s.toUTF8.data.toList

/-- The names that a section may have which is looked for under some name.  In Mach-O files a dot
in front becomes two underscores, packed sections have another name, and long names are cut. -/
def spellings : ObjectFormat → List UInt8 → List (List UInt8)
  | elf, name => [name]
  | machO, name =>
    let system := match name with
      | 46 :: rest => [nameBytes "__" ++ rest.take 14]
      | _ => []
    let packed := if nameBytes ".debug_" <+: name then
        [nameBytes "__zdebug_" ++ (name.drop 7).take 7]
      else []
    name :: system ++ packed

end ObjectFormat

structure ObjectFile where
  format : ObjectFormat
  byteOrder : ByteOrder
  /-- The architecture, if its registers are known. -/
  machine : Option Machine
  /-- Whether the file is to be linked yet. -/
  isRelocatable : Bool
  sections : List ObjectSection

namespace ObjectFile

/-- The first section that goes by a name. -/
def section? (f : ObjectFile) (name : String) : Option ObjectSection :=
  let spellings := f.format.spellings (ObjectFormat.nameBytes name)
  f.sections.find? fun s => s.name.any (· ∈ spellings)

/-- The unpacked content of a section. -/
def load (s : ObjectSection) : Except Error ByteArray := do (← s.stored).load

/-- The unpacked content of a section, with all relocations applied. -/
def loadRelocated (f : ObjectFile) (s : ObjectSection) : Except Error ByteArray := do
  let content ← load s
  if f.isRelocatable then
    return (← Relocation.applyAll s.relocations content.data.toList).toByteArray
  else return content

end ObjectFile

end DebugSymbols
