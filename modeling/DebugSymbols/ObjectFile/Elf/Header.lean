import DebugSymbols.Bytes.Cursor
import DebugSymbols.Machine

/-!
The headers of ELF files.  Files have a byte order of their own, and addresses of four or eight
bytes, which changes the order of some fields as well.
-/

namespace DebugSymbols.Elf

open Read

structure Layout where
  order : ByteOrder
  /-- Whether addresses take eight bytes. -/
  isWide : Bool

namespace Layout

def half (l : Layout) : Read Nat := number l.order 2

def word (l : Layout) : Read Nat := number l.order 4

def addressBytes (l : Layout) : Nat := if l.isWide then 8 else 4

def address (l : Layout) : Read Nat := number l.order l.addressBytes

/-- The sixteen bytes that begin a file. -/
def read : Read Layout := do
  let magic ← bytes 4
  let wide ← byte
  let order ← byte
  let version ← byte
  skip 9
  if magic.toList ≠ [0x7f, 0x45, 0x4c, 0x46] ∨ version ≠ 1 then failure
  let isWide ← match wide with
    | 1 => pure false
    | 2 => pure true
    | _ => failure
  match order with
  | 1 => return ⟨.little, isWide⟩
  | 2 => return ⟨.big, isWide⟩
  | _ => failure

end Layout

/-- Where a table of headers is. -/
structure Table where
  offset : Nat
  entrySize : Nat
  /-- The number of entries, or a mark if it does not fit here. -/
  count : Nat

structure Header where
  layout : Layout
  kind : Nat
  machine : Nat
  programs : Table
  sections : Table
  /-- The index of the section with the names of the sections, or a mark. -/
  names : Nat

def Header.read : Read Header := do
  let l ← Layout.read
  let kind ← l.half
  let machine ← l.half
  let _version ← l.word
  let _entry ← l.address
  let programs ← l.address
  let sections ← l.address
  let _flags ← l.word
  let _size ← l.half
  let programSize ← l.half
  let programCount ← l.half
  let sectionSize ← l.half
  let sectionCount ← l.half
  let names ← l.half
  return ⟨l, kind, machine, ⟨programs, programSize, programCount⟩,
    ⟨sections, sectionSize, sectionCount⟩, names⟩

namespace Header

/-- Whether the file is to be linked yet. -/
def isRelocatable (h : Header) : Bool := h.kind = 1

def machine? (h : Header) : Option Machine :=
  match h.machine, h.layout.isWide with
  | 3, _ => some .x86
  | 62, true => some .x86_64
  | _, _ => none

end Header

/-- The kinds of sections that matter here. -/
inductive SectionKind where
  | symbols
  | dynamicSymbols
  /-- Indices of sections that a table of symbols has no room for. -/
  | wideIndices
  | strings
  /-- Relocations whose addends are in the fields. -/
  | relocations
  /-- Relocations with addends of their own. -/
  | relocationsWithAddend
  /-- Relocations that are stored as their differences. -/
  | compactRelocations
  /-- A section that takes no room in the file. -/
  | noContent
  | other
deriving DecidableEq, Repr

def SectionKind.ofCode : Nat → SectionKind
  | 2 => symbols
  | 3 => strings
  | 4 => relocationsWithAddend
  | 8 => noContent
  | 9 => relocations
  | 11 => dynamicSymbols
  | 18 => wideIndices
  | 0x40000014 => compactRelocations
  | _ => other

/-- The header of a section.  The meaning of `link` and `info` depends on the kind. -/
structure SectionHeader where
  /-- Where the name is among the names. -/
  name : Nat
  kind : SectionKind
  flags : Nat
  offset : Nat
  size : Nat
  link : Nat
  info : Nat

namespace SectionHeader

/-- How many bytes a header takes. -/
def width (l : Layout) : Nat := if l.isWide then 64 else 40

def read (l : Layout) : Read SectionHeader := do
  let name ← l.word
  let kind ← l.word
  let flags ← l.address
  let _address ← l.address
  let offset ← l.address
  let size ← l.address
  let link ← l.word
  let info ← l.word
  let _alignment ← l.address
  let _entrySize ← l.address
  return ⟨name, .ofCode kind, flags, offset, size, link, info⟩

/-- Whether the content is packed behind a header of its own. -/
def isPacked (s : SectionHeader) : Bool := s.flags / 0x800 % 2 = 1

def holdsRelocations (s : SectionHeader) : Bool :=
  s.kind ∈ [.relocations, .relocationsWithAddend, .compactRelocations]

/-- Where the content is in the file, and how long it is. -/
def range? (s : SectionHeader) : Option (Nat × Nat) :=
  if s.kind = .noContent then none else some (s.offset, s.size)

/-- The content as the file has it. -/
def content? (s : SectionHeader) (file : ByteArray) : Option ByteArray :=
  match s.range? with
  | some (offset, size) => part? file offset size
  | none => some .empty

/-- The content as a table, together with the number of its entries, which has to be a whole
one. -/
def table? (s : SectionHeader) (file : ByteArray) (width : Nat) : Option (ByteArray × Nat) := do
  let content ← s.content? file
  if content.size % width ≠ 0 then failure
  return (content, content.size / width)

end SectionHeader

end DebugSymbols.Elf
