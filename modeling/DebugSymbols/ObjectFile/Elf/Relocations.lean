import DebugSymbols.ObjectFile.Elf.CompactRelocations
import DebugSymbols.ObjectFile.Relocation

/-!
What relocations in ELF files mean.  Their types are numbered by every architecture on its own.
-/

namespace DebugSymbols.Elf

open Read

/-- The types of relocations that put an address into a field, with the bits of the field. -/
def addressTypes (machine : Nat) (isWide : Bool) : List (Nat × Nat) :=
  match machine with
  | 2 | 18 | 43 => [(3, 32), (23, 32), (32, 64), (54, 64)]
  | 3 | 4 | 15 | 20 | 42 | 83 | 94 | 105 | 252 => [(1, 32)]
  | 8 => [(2, 32), (18, 64)]
  | 21 => [(1, 32), (38, 64)]
  | 22 => [(4, 32), (22, 64)]
  | 40 => [(2, 32)]
  | 62 | 247 | 263 => [(1, 64), (10, 32)]
  | 133 => [(13, 32)]
  | 164 => [(6, 32)]
  | 175 => [(0, 32), (50, 64)]
  | 183 => if isWide then [(257, 64), (258, 32)] else [(1, 32)]
  | 243 | 258 | 36902 => [(1, 32), (2, 64)]
  | _ => []

namespace Header

def relocationValue (h : Header) (type : UInt32) : Relocation.Value :=
  match (addressTypes h.machine h.layout.isWide).lookup type.toNat with
  | some bits => .address bits
  | none => .other

end Header

namespace StoredRelocation

/-- What a relocation refers to.  The number zero stands for no symbol at all. -/
def target (symbols : Array UInt64) (r : StoredRelocation) : Option UInt64 :=
  if r.symbol = 0 then some 0 else symbols[r.symbol.toNat]?

/-- What a relocation means.  Without an addend of its own it uses the one in the field. -/
def resolve (h : Header) (symbols : Array UInt64) (withAddend : Bool) (r : StoredRelocation) :
    Relocation where
  offset := r.offset
  value := h.relocationValue r.type
  target := r.target symbols
  addend := r.addend
  keepsField := !withAddend

end StoredRelocation

namespace SectionHeader

/-- The relocations that a section holds, and whether they have addends of their own.  There are
none if the section is not in the file, or its last relocation is cut. -/
def storedRelocations (h : Header) (file : ByteArray) (s : SectionHeader) :
    Bool × List StoredRelocation :=
  if s.kind = .compactRelocations then
    match s.content? file with
    | some content => StoredRelocation.ofCompact content
    | none => (false, [])
  else
    let withAddend := s.kind = .relocationsWithAddend
    match s.table? file (StoredRelocation.width h.layout withAddend) with
    | some (content, count) =>
      (withAddend, ((times (StoredRelocation.read h withAddend) count).run' content).getD [])
    | none => (withAddend, [])

def relocations (h : Header) (symbols : Array UInt64) (file : ByteArray) (s : SectionHeader) :
    List Relocation :=
  let (withAddend, stored) := s.storedRelocations h file
  stored.map (·.resolve h symbols withAddend)

end SectionHeader

end DebugSymbols.Elf
