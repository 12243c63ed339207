import DebugSymbols.Dwarf.Abbreviation
import DebugSymbols.Dwarf.UnitHeader

/-!
The entries of a unit in the order they are stored in.  An entry whose abbreviation says that it
has children is followed by them, and a null entry closes the innermost list of children.  So
every entry comes with how much deeper it lies than the one before it.
-/

namespace DebugSymbols

structure Entry where
  /-- The change in depth since the entry before. -/
  depthDelta : Int
  /-- Where the entry starts in its unit. -/
  offset : UInt64
  tag : Tag
  attributes : List Attribute

/-- Entries up to the end of a unit, or up to one that is malformed.  That one is the last, and
has no attributes, if it has a tag at least. -/
structure EntryStream where
  entries : Array Entry
  isComplete : Bool

namespace Entry

/-- The abbreviation of an entry, or nothing for a null entry. -/
def readAbbreviation (table : List Abbreviation) : Read (Option Abbreviation) := do
  let code ← Read.uleb
  if code = 0 then return none
  match Abbreviation.find? table code with
  | some abbreviation => return some abbreviation
  | none => failure

/-- Reads on from a position, given the change in depth so far. -/
def readOn (h : UnitHeader) (table : List Abbreviation) :
    Nat → Int → Array Entry → Cursor → EntryStream
  | 0, _, entries, _ => ⟨entries, false⟩
  | fuel + 1, delta, entries, c =>
    if c.position = c.data.size then ⟨entries, true⟩
    else
      match (readAbbreviation table).run c with
      | none => ⟨entries, false⟩
      | some (none, c) => readOn h table fuel (delta - 1) entries c
      | some (some abbreviation, c') =>
        let offset := (h.entriesStart + c.position).toUInt64
        match (abbreviation.specs.mapM (Attribute.read h.encoding)).run c' with
        | none => ⟨entries.push ⟨delta, offset, abbreviation.tag, []⟩, false⟩
        | some (attributes, c) =>
          readOn h table fuel (if abbreviation.hasChildren then 1 else 0)
            (entries.push ⟨delta, offset, abbreviation.tag, attributes⟩) c

/-- The entries of a unit.  Each of them takes a byte at least. -/
def readAll (h : UnitHeader) (table : List Abbreviation) : EntryStream :=
  let data := h.entries
  readOn h table (data.size + 1) 0 #[] ⟨data, 0⟩

end Entry

end DebugSymbols
