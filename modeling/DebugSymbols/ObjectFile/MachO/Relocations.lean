import DebugSymbols.ObjectFile.MachO.Header
import DebugSymbols.ObjectFile.Relocation

/-!
Relocations in Mach-O files.  Most take eight bytes; a few are made of two, the first of which
only amends the second.
-/

namespace DebugSymbols.MachO

open Read

/-- A relocation as the file has it. -/
structure StoredRelocation where
  offset : Nat
  /-- The number of a symbol or a section, or an addend. -/
  index : Nat
  /-- Whether the field holds a distance. -/
  isRelative : Bool
  /-- The width of the field, as a power of two. -/
  logWidth : Nat
  /-- Whether the index is that of a symbol. -/
  isExternal : Bool
  type : Nat

/-- What a relocation refers to. -/
structure Targets where
  /-- The addresses of the symbols, apart from those that only help debuggers. -/
  symbols : Array (Option UInt64)
  sections : Array UInt64

namespace StoredRelocation

/-- Files with their lowest byte first have the bits of the second word in the order of their
values; the others, the other way round. -/
def ofWords (order : ByteOrder) (offset w : Nat) : StoredRelocation :=
  match order with
  | .little =>
    ⟨offset, w % 0x1000000, w.testBit 24, (w >>> 25) % 4, w.testBit 27, w >>> 28⟩
  | .big =>
    ⟨offset, w >>> 8, w.testBit 7, (w >>> 5) % 4, w.testBit 4, w % 16⟩

/-- Reads a relocation.  There is another form of it, which is passed over. -/
def read (h : Header) : Read (Option StoredRelocation) := do
  let first ← h.layout.word
  let second ← h.layout.word
  if h.processor ≠ .x86_64 ∧ first.testBit 31 then return none
  return some (ofWords h.layout.order first second)

/-- Whether it only gives the addend of the next one. -/
def isAddend (p : Processor) (r : StoredRelocation) : Bool :=
  p = .arm64 ∧ r.type = 10

def value (p : Processor) (r : StoredRelocation) : Relocation.Value :=
  if p ≠ .other ∧ !r.isRelative ∧ r.type = 0 then .address (8 <<< r.logWidth) else .other

/-- The address that is referred to.  Sections are counted from one. -/
def target (targets : Targets) (r : StoredRelocation) : Option UInt64 :=
  if r.isExternal then targets.symbols[r.index]?.join
  else if r.index = 0 then none
  else targets.sections[r.index - 1]?

/-- An addend has twenty-four bits, the highest one of which is its sign. -/
def signedIndex (r : StoredRelocation) : Int64 :=
  Int64.ofInt (Int.bmod r.index 0x1000000)

def resolve (p : Processor) (targets : Targets) (addend : Int64) (r : StoredRelocation) :
    Relocation where
  offset := r.offset.toUInt64
  value := r.value p
  target := r.target targets
  addend
  keepsField := addend = 0

/-- Joins relocations with those that amend them. -/
def resolveAll (p : Processor) (targets : Targets) :
    Int64 → List StoredRelocation → List Relocation
  | _, [] => []
  | addend, r :: rest =>
    if r.isAddend p then resolveAll p targets r.signedIndex rest
    else r.resolve p targets addend :: resolveAll p targets 0 rest

end StoredRelocation

end DebugSymbols.MachO
