import DebugSymbols.Dwarf.Encoding

/-!
The headers that divide the entries into units.  The units follow each other without a gap, so
one malformed header makes all units behind it unreachable.
-/

namespace DebugSymbols

structure UnitHeader where
  /-- Where the unit begins in the section. -/
  start : UInt64
  /-- The length of the unit, that of its length field included. -/
  size : UInt64
  encoding : Encoding
  /-- Where the abbreviations of the unit begin in their section. -/
  abbreviations : UInt64
  /-- Where the entries begin in the unit. -/
  entriesStart : Nat
  /-- The bytes of the unit from its header on. -/
  content : ByteArray

namespace UnitHeader

open Read

/-- The first address behind the unit. -/
def stop (h : UnitHeader) : UInt64 := h.start + h.size

def contains (h : UnitHeader) (offset : UInt64) : Bool :=
  decide (h.start ≤ offset) && decide (offset < h.stop)

/-- What a header of version five holds for the kind of its unit: nothing for compilation units
and parts of them, an identification for those that are split from another file, and for units
of types a signature and an offset as well. -/
def readKindFields (size : OffsetSize) (kind : UInt8) : Read Unit := do
  match kind with
  | 1 | 3 => return ()
  | 4 | 5 => skip 8
  | 2 | 6 => skip (8 + size.bytes)
  | _ => failure

/-- The version, the address size and the offset of the abbreviations. -/
def readFields (size : OffsetSize) : Read (Nat × Nat × UInt64) := do
  let version := (← u16).toNat
  if 2 ≤ version ∧ version ≤ 4 then
    let abbreviations ← offset size
    return (version, ← addressSize, abbreviations)
  else if version = 5 then
    let kind ← byte
    if kind = 0 ∨ 6 < kind then failure
    let width ← addressSize
    let abbreviations ← offset size
    readKindFields size kind
    return (version, width, abbreviations)
  else failure

def read : Read UnitHeader := do
  let start ← position
  let (length, size) ← initialLength
  let contentStart ← position
  let content ← bytes length
  let c : Cursor := ⟨content, 0⟩
  let ((version, width, abbreviations), c) ← (readFields size).run c
  return {
    start := start.toUInt64
    size := (contentStart - start + length).toUInt64
    encoding := ⟨version, size, width⟩
    abbreviations
    entriesStart := contentStart - start + c.position
    content }

/-- The bytes of the entries. -/
def entries (h : UnitHeader) : ByteArray :=
  let headerRest := h.entriesStart - h.encoding.offsetSize.lengthBytes
  h.content.extract headerRest h.content.size

end UnitHeader

end DebugSymbols
