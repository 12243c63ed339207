import DebugSymbols.Dwarf.DieTree
import DebugSymbols.Dwarf.Error
import DebugSymbols.Dwarf.LineTable
import DebugSymbols.Dwarf.LocationList
import DebugSymbols.Dwarf.Sections

/-!
Units: a tree of entries, and the places in other sections that attributes of the unit refer to.
Those places are attributes of the root; where it names one twice, the last one counts.
-/

namespace DebugSymbols

structure CompilationUnit where
  sections : Sections
  header : UnitHeader
  tree : DieTree
  /-- The base address of the unit's location lists. -/
  lowPc : UInt64
  stringOffsetsBase : UInt64
  addressBase : UInt64
  locationListsBase : UInt64

namespace CompilationUnit

/-- The value of the last attribute to which `f` gives one. -/
def lastValue (root : List Attribute) (f : Attribute → Option α) : Option α :=
  root.reverse.findSome? f

/-- The place that the root gives for one of the names, or the very start of the section. -/
def base (root : List Attribute) (names : List AttributeName) : UInt64 :=
  (lastValue root fun a => if a.name ∈ names then a.sectionOffset? else none).getD 0

/-- The address that a value stands for, if it is of that kind.  Fails if the address is not in
the table. -/
def addressOf? (s : Sections) (width : Nat) (base : UInt64) :
    AttributeValue → Except DebugInfo.Error (Option UInt64)
  | .address address => .ok address
  | .addressIndex index =>
    match s.addressEntry? width base index with
    | some address => .ok address
    | none => .error .malformed
  | _ => .ok none

def decode (s : Sections) (h : UnitHeader) : Except DebugInfo.Error CompilationUnit := do
  let some table := Abbreviation.readTable.runAt s.abbreviations h.abbreviations.toNat
    | throw .malformed
  let stream := Entry.readAll h table
  let some first := stream.entries[0]? | throw .malformed
  let root := first.attributes
  let lineTable :=
    lastValue root fun a => if a.name = .lineTable then a.sectionOffset? else none
  let width := h.encoding.addressSize
  if lineTable.any fun offset => !LineTable.wellFormedAt s.lineTables width offset then
    throw .malformed
  let addressBase := base root [.addrBase, .vendorAddrBase]
  let lowPc ←
    match lastValue root fun a => if a.name = .lowPc then some a.value else none with
    | some value => addressOf? s width addressBase value
    | none => pure none
  let some tree := DieTree.ofEntries? stream.entries.toList | throw .treeTooDeep
  if !stream.isComplete then throw .malformed
  return {
    sections := s
    header := h
    tree
    lowPc := lowPc.getD 0
    stringOffsetsBase := base root [.strOffsetsBase]
    addressBase
    locationListsBase := base root [.loclistsBase] }

/-! ## Values -/

def address? (u : CompilationUnit) : AttributeValue → Except DebugInfo.Error (Option UInt64) :=
  addressOf? u.sections u.header.encoding.addressSize u.addressBase

/-- The bytes of a string, wherever they are kept. -/
def string? (u : CompilationUnit) : AttributeValue → Option ByteArray
  | .string content => some content
  | .stringOffset offset => Sections.stringAt? u.sections.strings offset
  | .lineStringOffset offset => Sections.stringAt? u.sections.lineStrings offset
  | .stringIndex index => do
    let size := u.header.encoding.offsetSize
    let offset ← Sections.offsetEntry? u.sections.stringOffsets size u.stringOffsetsBase index
    Sections.stringAt? u.sections.strings offset
  | _ => none

/-- The entry that a value refers to, by its place in the section. -/
def reference? (u : CompilationUnit) : AttributeValue → Option UInt64
  | .unitReference offset => some (u.header.start + offset)
  | .globalReference offset => some offset
  | _ => none

/-- The place of a location list, if the value stands for one.  Fails if its number is not in
the table. -/
def locationListOf? (u : CompilationUnit) (a : Attribute) :
    Except DebugInfo.Error (Option UInt64) :=
  match a.value with
  | .locationListIndex index =>
    let size := u.header.encoding.offsetSize
    match Sections.offsetEntry? u.sections.locationLists size u.locationListsBase index with
    | some offset => .ok (u.locationListsBase + offset)
    | none => .error .malformed
  | _ => .ok a.locationList?

/-- The location list at an offset. -/
def locationList? (u : CompilationUnit) (offset : UInt64) : Option (List Location) :=
  let encoding := u.header.encoding
  let addressAt := u.sections.addressEntry? encoding.addressSize u.addressBase
  LocationList.decode u.sections ⟨encoding, addressAt⟩ u.lowPc offset

end CompilationUnit

end DebugSymbols
