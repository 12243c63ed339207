import DebugSymbols.Bytes.Leb128
import DebugSymbols.ObjectFile.Elf.StoredRelocation

/-!
Relocations that are stored as their differences, in numbers of variable length.  Every one has
flags that tell what changes, and the distance from the one before in front of everything else.
-/

namespace DebugSymbols.Elf

open Read

/-- What is in front of the relocations. -/
structure CompactHeader where
  count : Nat
  withAddend : Bool
  /-- Distances are multiples of a power of two. -/
  shift : Nat

namespace CompactHeader

def read : Read CompactHeader := do
  let n := (← uleb).toNat
  return ⟨n >>> 3, n.testBit 2, n % 4⟩

def flagBits (h : CompactHeader) : Nat := if h.withAddend then 3 else 2

end CompactHeader

namespace StoredRelocation

/-- The flags of a relocation and its distance from the one before.  The first byte has the flags
and the lowest bits of the distance. -/
def readDistance (h : CompactHeader) : Read (Nat × UInt64) := do
  let first := (← byte).toNat
  let low := (first % 128) >>> h.flagBits
  let high ← if first.testBit 7 then uleb else pure 0
  let distance := low.toUInt64 ||| high <<< (7 - h.flagBits).toUInt64
  return (first, distance <<< h.shift.toUInt64)

/-- A difference, or none if its flag is not set. -/
def readDifference (flags flag : Nat) : Read Int64 :=
  if flags.testBit flag then sleb else pure 0

/-- The relocation that follows another one. -/
def readNext (h : CompactHeader) (last : StoredRelocation) : Read StoredRelocation := do
  let (flags, distance) ← readDistance h
  let symbol ← readDifference flags 0
  let type ← readDifference flags 1
  let addend ← if h.withAddend then readDifference flags 2 else pure 0
  return {
    offset := last.offset + distance
    symbol := last.symbol + symbol.toUInt64.toUInt32
    type := last.type + type.toUInt64.toUInt32
    addend := last.addend + addend }

/-- At most so many relocations, up to one that is cut or damaged. -/
def readCompact (h : CompactHeader) : Nat → StoredRelocation → Cursor → List StoredRelocation
  | 0, _, _ => []
  | n + 1, last, c =>
    match (readNext h last).run c with
    | some (next, c) => next :: readCompact h n next c
    | none => []

/-- All relocations in a section.  Each of them takes a byte at least. -/
def ofCompact (content : ByteArray) : Bool × List StoredRelocation :=
  match CompactHeader.read.run ⟨content, 0⟩ with
  | some (h, c) => (h.withAddend, readCompact h (min h.count content.size) ⟨0, 0, 0, 0⟩ c)
  | none => (false, [])

end StoredRelocation

end DebugSymbols.Elf
