import DebugSymbols.Dwarf.Die

/-!
All units of a program's debugging information.  A malformed unit does not affect the others,
unless its header is malformed, and an entry is found by its offset among all of them.  The
number of units is limited.
-/

namespace DebugSymbols

/-- A unit's place, and what it holds unless it is malformed. -/
structure DebugInfo.Slot where
  header : UnitHeader
  content : Except DebugInfo.Error CompilationUnit

structure DebugInfo where
  /-- In the order of their places. -/
  units : Array DebugInfo.Slot

namespace DebugInfo

/-- How many units there may be. -/
def maxUnits : Nat := 256 * 1024

/-- The headers of all units from a position on, of which there may be that many.  The header of
one unit too many is read before it is refused. -/
def readHeaders (n : Nat) (c : Cursor) : Except Error (List UnitHeader) :=
  if c.data.size ≤ c.position then .ok []
  else
    match UnitHeader.read.run c, n with
    | none, _ => .error .malformed
    | some _, 0 => .error .unitLimitExceeded
    | some (h, c), n + 1 => (h :: ·) <$> readHeaders n c

def decode (s : Sections) : Except Error DebugInfo := do
  let headers ← readHeaders maxUnits ⟨s.entries, 0⟩
  return ⟨(headers.map fun h => ⟨h, CompilationUnit.decode s h⟩).toArray⟩

/-- The unit around an offset. -/
def slotAt? (info : DebugInfo) (offset : UInt64) : Option Slot := do
  let index ← lastAtMost? (·.header.start) info.units offset
  let slot ← info.units[index]?
  if slot.header.contains offset then some slot else none

/-- The entry that starts at an offset. -/
def dieAt (info : DebugInfo) (offset : UInt64) : Except Error Die :=
  match info.slotAt? offset with
  | none => .error (.notFound offset)
  | some slot => do
    let u ← slot.content
    match (u.tree.find? (offset - slot.header.start)).bind u.die? with
    | some d => .ok d
    | none => .error (.notFound offset)

/-- The entry that an attribute refers to, which may be in another unit. -/
def follow? (info : DebugInfo) (d : Die) (name : AttributeName) : Except Error (Option Die) := do
  match ← d.reference? name with
  | some offset => some <$> info.dieAt offset
  | none => return none

end DebugInfo

end DebugSymbols
