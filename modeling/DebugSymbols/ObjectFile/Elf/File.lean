import DebugSymbols.ObjectFile.Elf.Relocations
import DebugSymbols.ObjectFile.Packed

/-!
ELF files.  All tables have to be in order, even those that no section needs.
-/

namespace DebugSymbols.Elf

open Read

/-! ## Tables of headers -/

/-- Reads entries of a table, if there is room for all of them. -/
def readTable (r : Read α) (width count : Nat) : Read (List α) := do
  if (← remaining) < count * width then failure
  times r count

namespace Header

/-- The header of the first section, which holds the numbers that others have no room for. -/
def firstSection? (h : Header) (file : ByteArray) : Option SectionHeader :=
  if h.sections.offset = 0 ∨ h.sections.entrySize ≠ SectionHeader.width h.layout then none
  else (SectionHeader.read h.layout).runAt file h.sections.offset

/-- The headers of all sections, of which there may be none. -/
def sectionHeaders? (h : Header) (file : ByteArray) : Option (List SectionHeader) := do
  let width := SectionHeader.width h.layout
  if h.sections.offset = 0 then return []
  let count ← if h.sections.count = 0 then (·.size) <$> h.firstSection? file
    else some h.sections.count
  if count = 0 then return []
  if h.sections.entrySize ≠ width then failure
  (readTable (SectionHeader.read h.layout) width count).runAt file h.sections.offset

/-- Whether the table of program headers is in order.  Nothing in it matters. -/
def hasPrograms (h : Header) (file : ByteArray) : Bool :=
  let width := if h.layout.isWide then 56 else 32
  if h.programs.offset = 0 then true
  else
    let count := if h.programs.count = 0xffff then (·.info) <$> h.firstSection? file
      else some h.programs.count
    match count with
    | none => false
    | some 0 => true
    | some count => h.programs.entrySize = width ∧ h.programs.offset + count * width ≤ file.size

end Header

/-! ## Names -/

/-- The part of a file that holds names, each up to a zero byte. -/
structure Strings where
  start : Nat
  stop : Nat

namespace Strings

def empty : Strings := ⟨0, 0⟩

/-- The strings in a section, whose end has to be an address. -/
def ofSection? (s : SectionHeader) : Option Strings :=
  match s.range? with
  | some (offset, size) =>
    if offset + size < UInt64.size then some ⟨offset, offset + size⟩ else none
  | none => some empty

/-- The string at an offset. -/
def get? (s : Strings) (file : ByteArray) (offset : Nat) : Option (List UInt8) := do
  let start := s.start + offset
  if file.size < s.stop ∨ s.stop < start then failure
  let length ← toZero file start (s.stop - start)
  return (file.extract start (start + length)).data.toList

end Strings

/-- The names of the sections.  They cannot be in section zero. -/
def Header.sectionNames? (h : Header) (file : ByteArray) (sections : Array SectionHeader) :
    Option Strings := do
  if sections.isEmpty then return .empty
  let index ← if h.names = 0xffff then (·.link) <$> h.firstSection? file else some h.names
  if index = 0 then failure
  Strings.ofSection? (← sections[index]?)

/-! ## Symbols -/

namespace Layout

/-- How many bytes a symbol takes. -/
def symbolWidth (l : Layout) : Nat := if l.isWide then 24 else 16

/-- The value of a symbol. -/
def readSymbol (l : Layout) : Read UInt64 := do
  skip (if l.isWide then 8 else 4)
  let value ← l.address
  skip 8
  return value.toUInt64

end Layout

/-- A table of symbols, of which a file has one for linking and one for running it. -/
structure Symbols where
  /-- The section that the table is in, or zero if there is none. -/
  index : Nat
  values : Array UInt64

namespace Symbols

/-- Whether a table's strings are in order. -/
def hasStrings (sections : Array SectionHeader) (table : SectionHeader) : Bool :=
  if table.link = 0 then true
  else sections[table.link]?.any fun s => s.kind = .strings ∧ (Strings.ofSection? s).isSome

/-- Whether everything is in the file that amends the indices of a table, four bytes each. -/
def hasWideIndices (sections : Array SectionHeader) (file : ByteArray) (index : Nat) : Bool :=
  sections.all fun s => s.kind ≠ .wideIndices ∨ s.link ≠ index ∨ (s.table? file 4).isSome

/-- The first table of some kind. -/
def read? (h : Header) (file : ByteArray) (sections : Array SectionHeader) (kind : SectionKind) :
    Option Symbols := do
  match sections.findIdx? (·.kind = kind) with
  | none => return ⟨0, #[]⟩
  | some index =>
    let table ← sections[index]?
    let (content, count) ← table.table? file h.layout.symbolWidth
    if !hasStrings sections table || !hasWideIndices sections file index then failure
    let values ← (times h.layout.readSymbol count).run' content
    return ⟨index, values.toArray⟩

end Symbols

/-! ## Sections -/

/-- Packed content with a header that tells how to unpack it. -/
def readPacked? (l : Layout) (file : ByteArray) (offset size : Nat) : Option StoredContent := do
  let header : Read (Nat × Nat) := do
    let method ← l.word
    if l.isWide then skip 4
    let unpacked ← l.address
    let _alignment ← l.address
    return (method, unpacked)
  let width := if l.isWide then 24 else 12
  let (method, unpacked) ← header.runAt file offset
  if size < width then failure
  let compression ← match method with
    | 1 => some .zlib
    | 2 => some .zstd
    | _ => none
  let content ← (bytes (size - width)).runAt file (offset + width)
  return .packed compression content unpacked

/-- The content of a section.  A section without content cannot be packed. -/
def readStored? (l : Layout) (file : ByteArray) (s : SectionHeader) (name : Option (List UInt8)) :
    Option StoredContent := do
  if s.isPacked then
    let (offset, size) ← s.range?
    readPacked? l file offset size
  else if name.any (ObjectFormat.nameBytes ".zdebug_" <+: ·) then
    let (offset, size) ← s.range?
    StoredContent.readMarked? file offset size
  else .plain <$> s.content? file

/-- Whether a section's relocations, if it has any, are for the symbols and belong to some other
section. -/
def isRelocating (symbols : Symbols) (s : SectionHeader) : Bool :=
  s.holdsRelocations && s.link = symbols.index && s.info ≠ 0

/-- Whether a section that holds relocations belongs to one that can have them. -/
def isApplicable (sections : Array SectionHeader) (s : SectionHeader) : Bool :=
  sections[s.info]?.any fun target => !target.holdsRelocations

/-- The sections with the relocations of a section, in their order.  A section that holds
relocations itself goes with those that follow it and belong to the same section.  If section
zero holds relocations, then the section that they belong to has none at all. -/
def relocatingSections (relocating : List (SectionHeader × Nat)) (s : SectionHeader)
    (index : Nat) : List SectionHeader :=
  if s.holdsRelocations then
    if relocating.any (·.2 = index) then
      (relocating.filter fun r => r.1.info = s.info ∧ index < r.2).map (·.1)
    else []
  else
    let own := relocating.filter (·.1.info = index)
    if own.any (·.2 = 0) then [] else own.map (·.1)

/-- Reads a file. -/
def read? (file : ByteArray) : Option ObjectFile := do
  let h ← Header.read.run' file
  if !h.hasPrograms file then failure
  let sections := (← h.sectionHeaders? file).toArray
  let names ← h.sectionNames? file sections
  let symbols ← Symbols.read? h file sections .symbols
  let _dynamic ← Symbols.read? h file sections .dynamicSymbols
  let relocating := sections.toList.zipIdx.filter (isRelocating symbols ·.1)
  if !relocating.all (isApplicable sections ·.1) then failure
  return {
    format := .elf
    byteOrder := h.layout.order
    machine := h.machine?
    isRelocatable := h.isRelocatable
    sections := sections.toList.zipIdx.map fun (s, index) =>
      let name := names.get? file s.name
      { name
        stored := (readStored? h.layout file s name).elim (.error .malformed) .ok
        relocations := (relocatingSections relocating s index).flatMap
          (·.relocations h symbols.values file) } }

end DebugSymbols.Elf
