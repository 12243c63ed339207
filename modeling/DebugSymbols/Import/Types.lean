import DebugSymbols.Import.Comparison
import DebugSymbols.Import.Naming
import DebugSymbols.Import.Outcome

/-!
What each kind of type becomes in the database.  Types that refer to others need a resolver
for them.
-/

namespace DebugSymbols

/-! ## Base types -/

/-- The shape of a base type, by the code of its encoding, and whether its size is one that the
encoding can have.  If not, a width is made do with. -/
def baseShape? (encoding : Int) (size : UInt64) : Option (TypeShape × Bool) :=
  let int (fallback : IntWidth) (signed isChar : Bool) :=
    let width := IntWidth.ofSize? size
    (TypeShape.int (width.getD fallback) signed isChar, width.isSome)
  match encoding with
  | 0x02 =>
    let width := BoolWidth.ofSize? size
    some (.bool (width.getD .default), width.isSome)
  | 0x04 =>
    let width := FloatWidth.ofSize? size
    some (.float (width.getD .default), width.isSome)
  | 0x05 => some (int .natural true false)
  | 0x06 => some (.int .w8 true true, size == 1)
  | 0x07 => some (int .natural false false)
  | 0x08 => some (.int .w8 false true, size == 1)
  | 0x10 => some (int .w8 false true)
  | _ => none

namespace Importer

/-- A type that is complete. -/
def settled (ordinal : Ordinal) : Outcome := .type ordinal false

def baseType (i : Importer) (d : Die) : Attempt Outcome := do
  let name ← Attempt.read d.name
  let size ← Attempt.read d.byteSize
  let encoding ← Attempt.read (d.number .encoding)
  match baseShape? encoding.toInt size with
  | none => return .useless
  | some (shape, expected) =>
    if !expected then Step.warn (.baseSize d.offset name size)
    settled <$> i.registerType name shape

def void (i : Importer) : Attempt Ordinal := i.registerType "void" .void

def unspecifiedType (i : Importer) (d : Die) : Attempt Outcome := do
  let name ← Attempt.read d.name?
  settled <$> i.registerType (name.getD "void") .void

/-! ## References to other types -/

/-- The type that an entry refers to.  An entry that refers to none has to do with void. -/
def target (i : Importer) (resolve : Resolver) (d : Die) : Attempt TypeRef := do
  match ← Attempt.read (d.reference? .type) with
  | some offset => resolve offset
  | none => .resolved <$> i.void

/-- Goes on with a target, if it is there. -/
def ofTarget (f : Ordinal → Attempt Ordinal) : TypeRef → Attempt Outcome
  | .resolved ordinal => settled <$> f ordinal
  | .inProgress => return .deferred
  | .missing => return .useless

def onTarget (i : Importer) (resolve : Resolver) (d : Die) (f : Ordinal → Attempt Ordinal) :
    Attempt Outcome := do ofTarget f (← i.target resolve d)

/-- A qualified type or a pointer. -/
def derivedFrom (i : Importer) (d : Die) (ordinal : Ordinal) : Attempt Ordinal := do
  let name ← Attempt.ask (·.nameOf ordinal)
  match d.tag with
  | .constType => i.registerType (name ++ " const") (.const ordinal)
  | .volatileType => i.registerType (name ++ " volatile") (.volatile ordinal)
  | _ => i.registerType (name ++ " *") (.pointer ordinal)

def derivedType (i : Importer) (resolve : Resolver) (d : Die) : Attempt Outcome :=
  i.onTarget resolve d (i.derivedFrom d)

def functionTo (i : Importer) (ordinal : Ordinal) : Attempt Ordinal := do
  let name ← Attempt.ask (·.nameOf ordinal)
  i.registerType (name ++ " ()") (.function ordinal)

def functionType (i : Importer) (resolve : Resolver) (d : Die) : Attempt Outcome :=
  i.onTarget resolve d i.functionTo

/-- The upper bound of an array, or zero if there is none that can be read. -/
def elementBound (d : Die) : UInt64 :=
  match d.children.find? (·.tag = .subrangeType) with
  | none => 0
  | some range =>
    match range.number? .upperBound with
    | .ok (some bound) => if bound < 0 then 0 else bound.toUInt64
    | _ => 0

def arrayName (element : String) (count : UInt64) : String :=
  element ++ (if count = 0 then "[]" else "[" ++ toString count ++ "]")

def arrayOf (i : Importer) (d : Die) (ordinal : Ordinal) : Attempt Ordinal := do
  let count := elementBound d
  let name ← Attempt.ask (·.nameOf ordinal)
  i.registerType (arrayName name count) (.array ordinal count)

/-- An array has to say what its elements are. -/
def arrayType (i : Importer) (resolve : Resolver) (d : Die) : Attempt Outcome := do
  if !d.hasAttribute .type then throw (.debugInfo (.missingAttribute .type))
  i.onTarget resolve d (i.arrayOf d)

/-! ## Declarations -/

/-- A declaration stands for the complete type of its name, or for an incomplete one. -/
def declaredType (i : Importer) (d : Die) : Attempt Outcome := do
  let name ← Attempt.read d.name
  let h := (← get).host
  let known := do
    let ordinal ← h.namedType? name
    match (← h.numberedType? ordinal).shape with
    | .struct _ | .union _ | .enum _ => some ordinal
    | _ => none
  match known with
  | some ordinal => return settled ordinal
  | none => settled <$> i.registerType name .incomplete

/-! ## Enumerations -/

/-- The width of an enumeration in bytes, if it can have that size. -/
def enumWidth? (size : UInt64) : Option UInt8 :=
  if size ∈ [1, 2, 4, 8, 16] then some size.toUInt8 else none

def enumRegistry (d : Die) (width : UInt8) : Registry EnumId where
  find? := Host.findEnum?
  fits s id := (describesEnum s.host id d).mapError .debugInfo
  add? h name := h.addEnum? (some name) width

def addAnonymousEnum (width : UInt8) : Attempt (EnumId × Bool) := do
  match (← get).host.addEnum? none width with
  | some (id, h) =>
    Step.setHost h
    return (id, false)
  | none => throw (.nameExhausted "<anonymous enum>")

/-- An enumeration without a name is known by its first constant. -/
def anonymousEnum (d : Die) (width : UInt8) : Attempt (EnumId × Bool) := do
  if let some first := d.enumerators.head? then
    let constant ← Attempt.read first.name
    let h := (← get).host
    if let some id := h.enumWithConstant? constant then
      if ← Attempt.read (describesEnum h id d) then return (id, true)
  addAnonymousEnum width

/-- The enumeration of an entry, and whether it was there before. -/
def enumFor (i : Importer) (d : Die) (width : UInt8) : Attempt (EnumId × Bool) := do
  match ← Attempt.read d.name? with
  | some name => (enumRegistry d width).reuseOrAdd i.config name
  | none => anonymousEnum d width

/-- The width of an enumeration.  Four bytes are made do with if the size is no width. -/
def enumWidth (d : Die) : Attempt UInt8 := do
  let size ← Attempt.read d.byteSize
  match enumWidth? size with
  | some width => return width
  | none =>
    Step.warn (.enumSize d.offset size)
    return 4

/-- Adds constants, apart from those whose names are taken. -/
def addConstants (id : EnumId) (constants : List (String × UInt64)) (h : Host) : Host :=
  constants.foldl (fun h (name, value) => (h.addEnumConstant? id name value).getD h) h

def enumType (i : Importer) (d : Die) : Attempt Outcome := do
  for constant in d.enumerators do Step.updateCache (·.markUseless constant.offset)
  if ← Attempt.read d.isDeclaration then i.declaredType d
  else
    let width ← enumWidth d
    let constants ← Attempt.read (d.enumerators.mapM Die.constant)
    let (id, existed) ← i.enumFor d width
    if !existed then Step.setHost (addConstants id constants (← get).host)
    settled <$> Attempt.ask (·.enumOrdinal id)

/-! ## Structures and unions -/

/-- Whether an entry describes a known structure.  One that still lacks members is compared
through the entry that it comes from. -/
def describesStruct (i : Importer) (s : Session) (id : StructId) (d : Die) :
    Except DebugInfo.Error Bool :=
  let origin := do
    let ordinal ← (s.structOrdinal id).toOption
    let offset ← s.cache.typeOffset? ordinal
    if s.cache.isPending offset then some offset else none
  match origin with
  | some offset => do sameLayout (← i.info.dieAt offset) d
  | none => describesRecord s.host id d

def structRegistry (i : Importer) (d : Die) (isUnion : Bool) : Registry StructId where
  find? := Host.findStruct?
  fits s id := (i.describesStruct s id d).mapError .debugInfo
  add? h name := h.addStruct? (some name) isUnion

def anonymousStruct (isUnion : Bool) : Attempt (StructId × Bool) := do
  match (← get).host.addStruct? none isUnion with
  | some (id, h) =>
    Step.setHost h
    return (id, false)
  | none => throw (.nameExhausted "<anonymous struct>")

/-- The structure or union of an entry, and whether it was there before. -/
def recordFor (i : Importer) (d : Die) : Attempt (StructId × Bool) := do
  let isUnion := d.tag = .unionType
  match ← Attempt.read d.name? with
  | some name => (i.structRegistry d isUnion).reuseOrAdd i.config name
  | none => anonymousStruct isUnion

/-- Adds a member of a known type to a structure, unless its name is taken or the type has no
known size. -/
def attachMember (owner : UInt64) (id : StructId) (m : MemberLayout) (ordinal : Ordinal) :
    Attempt Unit := do
  match (← get).sizedLinkTo ordinal with
  | .ok (type, size) =>
    let h := (← get).host
    Step.setHost ((h.addStructMember? id ⟨m.name, m.offset, size, type⟩).getD h)
  | .error (.sizeUnknown ordinal) =>
    Step.warn (.memberSkipped owner m.name (.sizeUnknown ordinal))
  | .error e => throw e

/-- Adds a member if its type is there, and tells whether it is. -/
def addResolved (owner : UInt64) (id : StructId) (m : MemberLayout) : TypeRef → Attempt Bool
  | .inProgress | .missing => return false
  | .resolved ordinal => do
    attachMember owner id m ordinal
    return true

/-- Adds a member to a structure.  Tells whether that is settled: it is not if the type cannot be
resolved yet. -/
def addMember (resolve : Resolver) (owner : UInt64) (id : StructId) (m : MemberLayout) :
    Attempt Bool := do
  match m.typeOffset with
  | none => return true
  | some offset => addResolved owner id m (← resolve offset)

/-- Adds members in turn and tells whether all of them are settled. -/
def addMembers (resolve : Resolver) (owner : UInt64) (id : StructId) :
    List MemberLayout → Attempt Bool
  | [] => return true
  | m :: rest => do
    let first ← addMember resolve owner id m
    let others ← addMembers resolve owner id rest
    return first && others

def recordType (i : Importer) (resolve : Resolver) (d : Die) : Attempt Outcome := do
  if ← Attempt.read d.isDeclaration then i.declaredType d
  else
    let layout ← Attempt.read d.layout
    let (id, existed) ← i.recordFor d
    let ordinal ← Attempt.ask (·.structOrdinal id)
    if existed then return settled ordinal
    let complete ← addMembers resolve d.offset id layout
    return .type ordinal !complete

/-! ## Other names of types -/

/-- The type of that name, if it is another name for the structure, union or enumeration that
the target comes from. -/
def sameAlias? (i : Importer) (s : Session) (name : String) (target : Ordinal) :
    Except DebugInfo.Error (Option Ordinal) := do
  let aliased := do
    let existing ← s.host.namedType? name
    match (← s.host.numberedType? existing).shape with
    | .typedef other =>
      let type ← s.host.numberedType? (← s.host.namedType? other)
      some (existing, type.shape, ← s.cache.typeOffset? target)
    | _ => none
  match aliased with
  | none => return none
  | some (existing, shape, offset) =>
    let d ← i.info.dieAt offset
    let same ←
      match shape with
      | .struct id | .union id => i.describesStruct s id d
      | .enum id => describesEnum s.host id d
      | _ => pure false
    return if same then some existing else none

def aliasOf (i : Importer) (name : String) (ordinal : Ordinal) : Attempt Ordinal := do
  match ← Attempt.read (i.sameAlias? (← get) name ordinal) with
  | some existing => return existing
  | none => i.registerType name (.typedef (← Attempt.ask (·.nameOf ordinal)))

def typedefType (i : Importer) (resolve : Resolver) (d : Die) : Attempt Outcome := do
  let name ← Attempt.read d.name
  i.onTarget resolve d (i.aliasOf name)

/-! ## All kinds of types -/

/-- What the type of an entry becomes. -/
def describe (i : Importer) (resolve : Resolver) (d : Die) : Attempt Outcome :=
  match d.tag with
  | .baseType => i.baseType d
  | .unspecifiedType => i.unspecifiedType d
  | .enumerationType => i.enumType d
  | .constType | .volatileType | .pointerType => i.derivedType resolve d
  | .typedef => i.typedefType resolve d
  | .arrayType => i.arrayType resolve d
  | .structureType | .unionType => i.recordType resolve d
  | .subroutineType => i.functionType resolve d
  | _ => return .useless

end Importer

end DebugSymbols
