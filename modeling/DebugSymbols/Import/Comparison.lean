import DebugSymbols.Database.Host
import DebugSymbols.Import.Layout

/-!
When two types are the same: enumerations that have the same constants, and structures or
unions that have the same members at the same offsets, whatever their order.
-/

namespace DebugSymbols

/-- Names with values, as far as they can be read. -/
structure Listing where
  pairs : List (String × UInt64)
  failure : Option DebugInfo.Error

namespace Listing

/-- A listing that can be read to its end. -/
def complete (pairs : List (String × UInt64)) : Listing := ⟨pairs, none⟩

/-- What is left of a listing. -/
abbrev Working := SortedMap String UInt64

/-- The last value of every name. -/
def load (l : Listing) : Except DebugInfo.Error Working :=
  match l.failure with
  | none => .ok (l.pairs.foldl (fun w (name, value) => w.insert name value) .empty)
  | some e => .error e

/-- Takes pairs away until one is missing.  What is left has to be nothing. -/
def drain (failure : Option DebugInfo.Error) :
    List (String × UInt64) → Working → Except DebugInfo.Error Bool
  | [], w =>
    match failure with
    | none => .ok w.toList.isEmpty
    | some e => .error e
  | (name, value) :: rest, w =>
    if w.get? name = some value then drain failure rest (w.erase name) else .ok false

/-- Whether `b` lists what `a` lists, once each. -/
def agrees (a b : Listing) : Except DebugInfo.Error Bool := do
  drain b.failure b.pairs (← a.load)

/-! ## Listings of types -/

def ofEnum (d : EnumDef) : Listing := complete d.constants

def ofStruct (d : StructDef) : Listing :=
  complete (d.members.map fun m => (m.name, if d.isUnion then 0 else m.offset))

/-- The pairs up to the first that cannot be read. -/
def ofReadings : List (Except DebugInfo.Error (String × UInt64)) → Listing
  | [] => ⟨[], none⟩
  | .error e :: _ => ⟨[], some e⟩
  | .ok pair :: rest =>
    let others := ofReadings rest
    ⟨pair :: others.pairs, others.failure⟩

end Listing

def Die.enumerators (d : Die) : List Die := d.children.filter (·.tag = .enumerator)

def Die.constant (d : Die) : Die.Access (String × UInt64) := do
  let value ← d.number .constValue
  return (← d.name, value.toUInt64)

namespace Listing

def ofEnumDie (d : Die) : Listing := ofReadings (d.enumerators.map Die.constant)

/-- All members of a structure are read before the first is listed. -/
def ofStructDie (d : Die) : Listing :=
  match d.layout with
  | .ok layout => complete (layout.map fun m => (m.name, m.offset))
  | .error e => ⟨[], some e⟩

end Listing

/-! ## Types that match -/

/-- Whether the enumeration has the constants of the entry. -/
def describesEnum (h : Host) (id : EnumId) (d : Die) : Except DebugInfo.Error Bool :=
  match h.enumDef? id with
  | none => .ok false
  | some definition =>
    if d.tag = .enumerationType then (Listing.ofEnum definition).agrees (.ofEnumDie d)
    else .ok false

/-- Whether the structure or union has members, and just those of the entry. -/
def describesRecord (h : Host) (id : StructId) (d : Die) : Except DebugInfo.Error Bool :=
  match h.structDef? id with
  | none => .ok false
  | some definition =>
    let tag : Tag := if definition.isUnion then .unionType else .structureType
    if d.tag = tag ∧ definition.members ≠ [] then
      (Listing.ofStruct definition).agrees (.ofStructDie d)
    else .ok false

/-- Whether two entries describe structures or unions with the same members, at least one. -/
def sameLayout (a b : Die) : Except DebugInfo.Error Bool := do
  if a.tag = b.tag ∧ (a.tag = .structureType ∨ a.tag = .unionType) then
    if (← a.layout).isEmpty then return false
    (Listing.ofStructDie a).agrees (.ofStructDie b)
  else return false

end DebugSymbols
