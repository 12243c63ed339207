import DebugSymbols.Dwarf.Die

/-!
The layout of a structure or union as its entry describes it: which members lie where.
-/

namespace DebugSymbols

structure MemberLayout where
  name : String
  offset : UInt64
  /-- Where the entry of the member's type should start. -/
  typeOffset : Option UInt64
deriving DecidableEq, Repr

namespace MemberLayout

/-- A member without a name is named after its offset. -/
def defaultName (offset : UInt64) : String := "field_" ++ upperHex offset.toNat

def ofDie (inUnion : Bool) (d : Die) : Die.Access MemberLayout := do
  let stated ← d.memberOffset?
  let offset := if inUnion then 0 else stated.getD 0
  let name ← d.name?
  return ⟨name.getD (defaultName offset), offset, ← d.reference? .type⟩

end MemberLayout

/-- The members of a structure or union.  All members of a union lie at its start. -/
def Die.layout (d : Die) : Die.Access (List MemberLayout) :=
  (d.children.filter (·.tag = .member)).mapM (MemberLayout.ofDie (d.tag = .unionType))

/-- Whether an entry is a declaration of a type that is defined elsewhere. -/
def Die.isDeclaration (d : Die) : Die.Access Bool := d.flag .declaration

end DebugSymbols
