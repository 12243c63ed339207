import DebugSymbols.ObjectFile.MachO.Relocations
import DebugSymbols.ObjectFile.Packed

/-!
Mach-O files.  Sections are grouped in segments, whose commands describe them.
-/

namespace DebugSymbols.MachO

open Read

/-! ## Sections -/

structure SectionHeader where
  name : List UInt8
  address : UInt64
  size : Nat
  offset : Nat
  relocationsOffset : Nat
  relocationsCount : Nat
  flags : Nat

namespace SectionHeader

def read (l : Layout) : Read SectionHeader := do
  let name ← bytes 16
  let _segment ← bytes 16
  let address ← l.address
  let size ← l.address
  let offset ← l.word
  let _alignment ← l.word
  let relocationsOffset ← l.word
  let relocationsCount ← l.word
  let flags ← l.word
  skip (if l.isWide then 12 else 8)
  return ⟨name.data.toList.takeWhile (· ≠ 0), address.toUInt64, size, offset, relocationsOffset,
    relocationsCount, flags⟩

/-- Whether the section takes no room in the file. -/
def isZeroed (s : SectionHeader) : Bool := s.flags % 256 ∈ [0x01, 0x0c, 0x12]

def readStored? (file : ByteArray) (s : SectionHeader) : Option StoredContent :=
  if ObjectFormat.nameBytes "__zdebug_" <+: s.name then
    if s.isZeroed then none else StoredContent.readMarked? file s.offset s.size
  else if s.isZeroed then some (.plain .empty)
  else .plain <$> part? file s.offset s.size

/-- The relocations of a section, which are none if they are not all in the file. -/
def relocations (h : Header) (targets : Targets) (file : ByteArray) (s : SectionHeader) :
    List Relocation :=
  match (bytes (8 * s.relocationsCount)).runAt file s.relocationsOffset with
  | none => []
  | some content =>
    let stored := ((times (StoredRelocation.read h) s.relocationsCount).run' content).getD []
    StoredRelocation.resolveAll h.processor targets 0 (stored.filterMap id)

end SectionHeader

/-! ## Commands -/

/-- The sections of a segment. -/
def readSegment (l : Layout) : Read (List SectionHeader) := do
  skip (if l.isWide then 64 else 48)
  let count ← l.word
  skip 4
  if (← remaining) < count * (if l.isWide then 80 else 68) then failure
  times (SectionHeader.read l) count

/-- The address of a symbol, unless it only helps debuggers. -/
def readSymbol (l : Layout) : Read (Option UInt64) := do
  skip 4
  let type ← byte
  skip 3
  let value ← l.address
  return if type &&& 0xe0 = 0 then some value.toUInt64 else none

/-- The symbols in a file that a command tells about. -/
def readSymbols? (l : Layout) (file : ByteArray) (c : Command) :
    Option (Array (Option UInt64)) := do
  let place : Read (Nat × Nat) := do
    skip 8
    let offset ← l.word
    let count ← l.word
    skip 8
    return (offset, count)
  let (offset, count) ← place.run' c.content
  let content ← part? file offset (count * (if l.isWide then 16 else 12))
  List.toArray <$> (times (readSymbol l) count).run' content

/-- What the commands say. -/
structure Contents where
  sections : List SectionHeader
  symbols : Array (Option UInt64)

/-- Takes a command into account.  Those for files with addresses of the other size are ignored. -/
def Contents.add? (l : Layout) (file : ByteArray) (contents : Contents) (c : Command) :
    Option Contents := do
  if c.code = (if l.isWide then 0x19 else 1) then
    let sections ← (readSegment l).run' c.content
    return { contents with sections := contents.sections ++ sections }
  else if c.code = 2 then return { contents with symbols := ← readSymbols? l file c }
  else return contents

/-- Reads a file. -/
def read? (file : ByteArray) : Option ObjectFile := do
  let h ← Header.read.run' file
  let contents ← (h.commands file).foldlM (Contents.add? h.layout file) ⟨[], #[]⟩
  let targets : Targets := ⟨contents.symbols, (contents.sections.map (·.address)).toArray⟩
  return {
    format := .machO
    byteOrder := h.layout.order
    machine := h.processor.machine?
    isRelocatable := h.isRelocatable
    sections := contents.sections.map fun s =>
      { name := some s.name
        stored := (s.readStored? file).elim (.error .malformed) .ok
        relocations := s.relocations h targets file } }

end DebugSymbols.MachO
