import DebugSymbols.Dwarf.CompilationUnit
import DebugSymbols.Text.Utf8

/-!
Debugging information entries as users see them: an entry, its relatives in the unit, and its
attributes by name.  Of two attributes of one name the first counts.
-/

namespace DebugSymbols

structure Die where
  unit : CompilationUnit
  /-- The number of the entry's node in the tree of the unit. -/
  index : Nat
  node : DieTree.Node

def CompilationUnit.die? (u : CompilationUnit) (index : Nat) : Option Die :=
  (u.tree.node? index).map fun node => ⟨u, index, node⟩

/-- The root and all entries below it, a parent before its children. -/
def CompilationUnit.dies (u : CompilationUnit) : List Die := u.tree.preorder.filterMap u.die?

namespace Die

def offset (d : Die) : UInt64 := d.unit.header.start + d.node.offset
def tag (d : Die) : Tag := d.node.tag
def parent? (d : Die) : Option Die := d.node.parent.bind d.unit.die?
def firstChild? (d : Die) : Option Die := d.node.firstChild.bind d.unit.die?
def nextSibling? (d : Die) : Option Die := d.node.nextSibling.bind d.unit.die?
def children (d : Die) : List Die := (d.unit.tree.children d.index).filterMap d.unit.die?

/-! ## Attributes -/

/-- The outcome of reading an attribute. -/
abbrev Access := Except DebugInfo.Error

def attribute? (d : Die) (name : AttributeName) : Option Attribute :=
  d.node.attributes.find? (·.name = name)

def hasAttribute (d : Die) (name : AttributeName) : Bool := (d.attribute? name).isSome

/-- An attribute that has to be there. -/
def required (name : AttributeName) : Option α → Access α
  | some a => .ok a
  | none => .error (.missingAttribute name)

/-- A value whose form has to be a supported one. -/
def supported (name : AttributeName) : Option α → Access α
  | some a => .ok a
  | none => .error (.unsupportedForm name)

/-- What `f` makes of an attribute that may be missing. -/
def optional (d : Die) (name : AttributeName) (f : Attribute → Access α) : Access (Option α) :=
  match d.attribute? name with
  | some a => some <$> f a
  | none => .ok none

def name? (d : Die) : Access (Option String) :=
  d.optional .name fun a =>
    match d.unit.string? a.value with
    | some bytes => .ok (Utf8.decode bytes)
    | none => .error .malformed

def name (d : Die) : Access String := do required .name (← d.name?)

def byteSize (d : Die) : Access UInt64 := do
  let a ← required .byteSize (d.attribute? .byteSize)
  supported .byteSize a.unsigned?

def number? (d : Die) (name : AttributeName) : Access (Option Int64) :=
  d.optional name fun a => supported name a.signed?

def number (d : Die) (name : AttributeName) : Access Int64 := do
  required name (← d.number? name)

/-- A flag that is missing is not set. -/
def flag (d : Die) (name : AttributeName) : Access Bool :=
  match d.attribute? name with
  | none => .ok false
  | some ⟨_, .flag value⟩ => .ok value
  | some _ => .error (.unsupportedForm name)

def address? (d : Die) (name : AttributeName) : Access (Option UInt64) :=
  d.optional name fun a => do supported name (← d.unit.address? a.value)

/-- Where the entry that an attribute refers to should start. -/
def reference? (d : Die) (name : AttributeName) : Access (Option UInt64) :=
  d.optional name fun a => supported name (d.unit.reference? a.value)

/-! ## Locations -/

/-- The location of an expression of its own, or those of a list. -/
def locationsOf (d : Die) (a : Attribute) : Access (List Location) := do
  match a.value with
  | .block expression =>
    match Expression.decode d.unit.header.encoding expression with
    | some atoms => return [⟨none, atoms⟩]
    | none => throw .malformed
  | _ =>
    let offset ← supported a.name (← d.unit.locationListOf? a)
    match d.unit.locationList? offset with
    | some locations => return locations
    | none => throw .malformed

def locations? (d : Die) (name : AttributeName) : Access (Option (List Location)) :=
  d.optional name d.locationsOf

/-- The offset that a location gives for a member: it adds a constant to the address of the
structure, and does nothing else. -/
def constantOffset? : List Location → Option UInt64
  | [⟨none, [.plusConstant offset]⟩] => some offset
  | _ => none

/-- The offset of a member in its structure, a number or a location. -/
def memberOffset? (d : Die) : Access (Option UInt64) :=
  d.optional .dataMemberLocation fun a =>
    match a.unsigned? with
    | some offset => .ok offset
    | none => do supported a.name (constantOffset? (← d.locationsOf a))

end Die

end DebugSymbols
