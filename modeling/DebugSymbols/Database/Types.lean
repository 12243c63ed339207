import DebugSymbols.Database.Basic

/-!
The type table of a database: named types and their sizes, enumerations and structures.
An operation that can be refused answers `none` and leaves the database as it was.
-/

namespace DebugSymbols.Database

/-! ## Named types -/

def namedType? (db : Database) (name : String) : Option Ordinal :=
  (db.types.findIdx? (·.name = name)).map fun i => ⟨i + 1⟩

def numberedType? (db : Database) (ordinal : Ordinal) : Option NamedType :=
  match ordinal.val with
  | 0 => none
  | i + 1 => db.types[i]?

/-- Refused if the name is taken. -/
def addNamedType? (db : Database) (name : String) (shape : TypeShape) :
    Option (Ordinal × Database) :=
  if (db.namedType? name).isSome then none
  else some (⟨db.types.size + 1⟩, { db with types := db.types.push ⟨name, shape⟩ })

/-- Gives the type another shape. -/
def setShape (db : Database) (ordinal : Ordinal) (shape : TypeShape) : Database :=
  { db with types := db.types.modify (ordinal.val - 1) fun t => { t with shape } }

/-! ## Made up names -/

/-- What a made up name says about its bearer. -/
inductive Kind where
  | enum
  | struct
  | union

def Kind.label : Kind → String
  | enum => "enum"
  | struct => "struct"
  | union => "union"

def anonymousName (kind : Kind) (n : Nat) : String :=
  "__anon_" ++ kind.label ++ "_" ++ toString n

/-- The least number after `last` whose name is not among `taken`.  Numbers make different
names, so a name that is met can be struck off. -/
def nextFree (kind : Kind) (taken : List String) (last : Nat) : Nat :=
  if anonymousName kind (last + 1) ∈ taken then
    nextFree kind (taken.erase (anonymousName kind (last + 1))) (last + 1)
  else last + 1
termination_by taken.length
decreasing_by
  rename_i h
  have := List.length_erase_of_mem h
  have := List.length_pos_of_mem h
  omega

/-! ## Enumerations and structures -/

/-- Reserves the named type of a new enumeration or structure.  A made up name takes the place
of a missing one; a name that is taken by an incomplete type completes that type, and is
refused otherwise. -/
def reserve? (db : Database) (name : Option String) (kind : Kind) (shape : TypeShape) :
    Option (String × Ordinal × Database) :=
  match name with
  | none =>
    let n := nextFree kind (db.types.toList.map (·.name)) db.lastAnonymous
    let name := anonymousName kind n
    some (name, ⟨db.types.size + 1⟩,
      { db with types := db.types.push ⟨name, shape⟩, lastAnonymous := n })
  | some name =>
    match db.namedType? name with
    | none => (db.addNamedType? name shape).map fun (o, db) => (name, o, db)
    | some o =>
      match db.numberedType? o with
      | some ⟨_, .incomplete⟩ => some (name, o, db.setShape o shape)
      | _ => none

def findEnum? (db : Database) (name : String) : Option EnumId := do
  match (← db.numberedType? (← db.namedType? name)).shape with
  | .enum id => some id
  | _ => none

def enumDef? (db : Database) (id : EnumId) : Option EnumDef := db.enums[id.val]?

/-- The first enumeration that defines a constant of that name. -/
def enumWithConstant? (db : Database) (constant : String) : Option EnumId :=
  (db.enums.findIdx? (·.constants.any (·.1 = constant))).map EnumId.mk

def addEnum? (db : Database) (name : Option String) (width : UInt8) :
    Option (EnumId × Database) := do
  let id : EnumId := ⟨db.enums.size⟩
  let (name, ordinal, db) ← db.reserve? name .enum (.enum id)
  return (id, { db with enums := db.enums.push ⟨name, width, ordinal, []⟩ })

/-- Refused if the enumeration has a constant of that name. -/
def addEnumConstant? (db : Database) (id : EnumId) (name : String) (value : UInt64) :
    Option Database := do
  let d ← db.enumDef? id
  if d.constants.any (·.1 = name) then none
  else
    some { db with
      enums := db.enums.modify id.val fun d =>
        { d with constants := d.constants ++ [(name, value)] } }

def findStruct? (db : Database) (name : String) : Option StructId := do
  match (← db.numberedType? (← db.namedType? name)).shape with
  | .struct id | .union id => some id
  | _ => none

def structDef? (db : Database) (id : StructId) : Option StructDef := db.structs[id.val]?

def addStruct? (db : Database) (name : Option String) (isUnion : Bool) :
    Option (StructId × Database) := do
  let id : StructId := ⟨db.structs.size⟩
  let (name, ordinal, db) ←
    if isUnion then db.reserve? name .union (.union id) else db.reserve? name .struct (.struct id)
  return (id, { db with structs := db.structs.push ⟨name, isUnion, ordinal, []⟩ })

/-- Places a member after those whose offset is not greater. -/
def insertMember (m : Member) (members : List Member) : List Member :=
  members.takeWhile (·.offset ≤ m.offset) ++ m :: members.dropWhile (·.offset ≤ m.offset)

/-- Refused if the structure has a member of that name. -/
def addStructMember? (db : Database) (id : StructId) (m : Member) : Option Database := do
  let d ← db.structDef? id
  if d.members.any (·.name = m.name) then none
  else
    some { db with
      structs := db.structs.modify id.val fun d => { d with members := insertMember m d.members } }

/-! ## Sizes -/

/-- The product, unless it takes more than 64 bits. -/
def checkedMul (a b : UInt64) : Option UInt64 :=
  if a.toNat * b.toNat < UInt64.size then some (a * b) else none

/-- Where the last member of a structure ends; members of a union all start at zero. -/
def StructDef.size (d : StructDef) : UInt64 :=
  d.members.foldl (fun acc m => max acc (if d.isUnion then m.size else m.offset + m.size)) 0

/-- The size of a type that is reached in less than the given number of steps through
qualifiers, arrays and other names. -/
def sizeWithin (db : Database) : Nat → Ordinal → Option UInt64
  | 0, _ => none
  | steps + 1, ordinal => do
    match (← db.numberedType? ordinal).shape with
    | .void | .incomplete | .function _ => none
    | .bool width => some width.size
    | .int width _ _ => some width.size
    | .float width => some width.size
    | .const inner | .volatile inner => db.sizeWithin steps inner
    | .pointer _ => some db.pointerSize
    | .array element count =>
      if count = 0 then none else (db.sizeWithin steps element).bind (checkedMul · count)
    | .typedef target => (db.namedType? target).bind (db.sizeWithin steps)
    | .struct id | .union id => (db.structDef? id).map StructDef.size
    | .enum id => (db.enumDef? id).map (·.width.toUInt64)

/-- How many steps through qualifiers, arrays and other names a size may lie away. -/
def maxSizeSteps : Nat := 32

def typeSize? (db : Database) (ordinal : Ordinal) : Option UInt64 :=
  db.sizeWithin (maxSizeSteps + 1) ordinal

end DebugSymbols.Database
