import DebugSymbols.Dwarf.Expression
import DebugSymbols.Dwarf.Sections

/-!
Location lists: expressions for parts of the program.  A list of version four or less consists
of pairs of offsets from a base address; later ones have a kind in front of each entry.
Entries for parts of the program that do not exist are left out: those that start, or have
their base, at an address set aside as a mark for them, and those that are empty.
-/

namespace DebugSymbols.LocationList

open Read

/-- The range of an entry as it is written. -/
inductive Bounds where
  /-- Relative to the base address. -/
  | offsets (start stop : UInt64)
  | addresses (start stop : UInt64)
  | sized (start length : UInt64)
  /-- By the numbers of entries of the address table. -/
  | indices (start stop : UInt64)
  | indexSized (start length : UInt64)
  | everywhere
deriving DecidableEq, Repr

inductive Item where
  | base (address : UInt64)
  | indexedBase (index : UInt64)
  | location (bounds : Bounds) (expression : ByteArray)

/-! ## Written form -/

/-- A pair of offsets, one of which marks the end and one a base address. -/
def readPair (enc : Encoding) : Read (Option Item) := do
  let start ← address enc.addressSize
  let stop ← address enc.addressSize
  if start = 0 ∧ stop = 0 then return none
  else if start = maxAddress enc.addressSize then return some (.base stop)
  else return some (.location (.offsets start stop) (← counted 2))

/-- An entry of a list since version five. -/
def readKind (enc : Encoding) : Read (Option Item) := do
  match ← byte with
  | 0 => return none
  | 1 => return some (.indexedBase (← uleb))
  | 2 =>
    let bounds := Bounds.indices (← uleb) (← uleb)
    return some (.location bounds (← counted'))
  | 3 =>
    let bounds := Bounds.indexSized (← uleb) (← uleb)
    return some (.location bounds (← counted'))
  | 4 =>
    let bounds := Bounds.offsets (← uleb) (← uleb)
    return some (.location bounds (← counted'))
  | 5 => return some (.location .everywhere (← counted'))
  | 6 => return some (.base (← address enc.addressSize))
  | 7 =>
    let bounds := Bounds.addresses (← address enc.addressSize) (← address enc.addressSize)
    return some (.location bounds (← counted'))
  | 8 =>
    let bounds := Bounds.sized (← address enc.addressSize) (← uleb)
    return some (.location bounds (← counted'))
  | _ => failure

/-- A list ends with the section at the latest. -/
def readItems (enc : Encoding) : Read (List Item) :=
  untilNone do
    if ← atEnd then return none
    else if enc.version ≤ 4 then readPair enc
    else readKind enc

/-! ## Meaning -/

/-- What the ranges of a list are resolved against. -/
structure Context where
  encoding : Encoding
  /-- Looks an address up in the address table. -/
  addressAt : UInt64 → Option UInt64

namespace Context

/-- The least address that marks code that does not exist.  The greatest address marks it as well,
unless it stands in front of a base address. -/
def absent (ctx : Context) : UInt64 := maxAddress ctx.encoding.addressSize - 1

/-- Adds within the width of addresses. -/
def add (ctx : Context) (a b : UInt64) : UInt64 := (a + b) &&& maxAddress ctx.encoding.addressSize

/-- The range that bounds stand for, unless an address is not in the table. -/
def range? (ctx : Context) (base : UInt64) : Bounds → Option AddressRange
  | .offsets start stop => some ⟨ctx.add base start, ctx.add base stop⟩
  | .addresses start stop => some ⟨start, stop⟩
  | .sized start length => some ⟨start, ctx.add start length⟩
  | .indices start stop => return ⟨← ctx.addressAt start, ← ctx.addressAt stop⟩
  | .indexSized start length => do
    let start ← ctx.addressAt start
    return ⟨start, ctx.add start length⟩
  | .everywhere => some ⟨0, 0xffffffffffffffff⟩

/-- Whether an entry with such bounds is left out. -/
def isAbsent (ctx : Context) (base : UInt64) (bounds : Bounds) (range : AddressRange) : Bool :=
  let relative := bounds matches .offsets _ _
  relative && ctx.absent ≤ base || ctx.absent ≤ range.start || range.isEmpty

/-- The locations of the items, given the base address so far. -/
def locations? (ctx : Context) (base : UInt64) : List Item → Option (List Location)
  | [] => some []
  | .base address :: items => ctx.locations? address items
  | .indexedBase index :: items => do ctx.locations? (← ctx.addressAt index) items
  | .location bounds expression :: items => do
    let range ← ctx.range? base bounds
    if ctx.isAbsent base bounds range then ctx.locations? base items
    else
      let atoms ← Expression.decode ctx.encoding expression
      return ⟨some range, atoms⟩ :: (← ctx.locations? base items)

end Context

/-- The list that starts at an offset of the section that the version keeps lists in. -/
def decode (s : Sections) (ctx : Context) (base offset : UInt64) : Option (List Location) := do
  let data := if ctx.encoding.version ≤ 4 then s.locations else s.locationLists
  let items ← (readItems ctx.encoding).runAt data offset.toNat
  ctx.locations? base items

end DebugSymbols.LocationList
