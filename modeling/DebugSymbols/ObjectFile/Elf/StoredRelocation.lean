import DebugSymbols.ObjectFile.Elf.Header

/-!
Relocations as ELF files have them.
-/

namespace DebugSymbols.Elf

open Read

structure StoredRelocation where
  /-- Where the field is in its section. -/
  offset : UInt64
  /-- The number of a symbol, or zero if there is none. -/
  symbol : UInt32
  type : UInt32
  addend : Int64
deriving DecidableEq, Repr

namespace StoredRelocation

/-- The number of the symbol and the type, which share a field. -/
def splitInfo (l : Layout) (info : Nat) : UInt32 × UInt32 :=
  if l.isWide then ((info / UInt32.size).toUInt32, info.toUInt32)
  else ((info / 256).toUInt32, (info % 256).toUInt32)

/-- The same where the halves are swapped and the type has its lowest byte last. -/
def splitSwapped (info : Nat) : UInt32 × UInt32 :=
  let high := info / UInt32.size
  (info.toUInt32, (littleEndian (toLittleEndian 4 high).reverse).toUInt32)

/-- Whether relocations with addends have the halves swapped. -/
def isSwapped (h : Header) : Bool :=
  h.machine = 8 ∧ h.layout.isWide ∧ h.layout.order = .little

/-- How many bytes a relocation takes. -/
def width (l : Layout) (withAddend : Bool) : Nat :=
  (if withAddend then 3 else 2) * l.addressBytes

def readAddend (l : Layout) : Read Int64 := do
  let n ← l.address
  return if l.isWide then n.toUInt64.toInt64 else n.toUInt32.toInt32.toInt64

def read (h : Header) (withAddend : Bool) : Read StoredRelocation := do
  let offset ← h.layout.address
  let info ← h.layout.address
  let addend ← if withAddend then readAddend h.layout else pure 0
  let (symbol, type) := if withAddend ∧ isSwapped h then splitSwapped info
    else splitInfo h.layout info
  return ⟨offset.toUInt64, symbol, type, addend⟩

end StoredRelocation

end DebugSymbols.Elf
