import DebugSymbols.Dwarf.AttributeName
import DebugSymbols.Dwarf.Encoding
import DebugSymbols.Dwarf.Form

/-!
Attributes: a name and a value.  The form that a value is stored in settles what kind of value
it is; the name settles what a number or an offset means.
-/

namespace DebugSymbols

/-- A value as far as its form tells. -/
inductive AttributeValue where
  | address (address : UInt64)
  /-- The number of an entry of the address table. -/
  | addressIndex (index : UInt64)
  /-- Bytes, which may be a location expression. -/
  | block (content : ByteArray)
  | unsigned (value : UInt64)
  | signed (value : Int64)
  | flag (value : Bool)
  /-- A place in the section that the attribute is about. -/
  | sectionOffset (offset : UInt64)
  /-- An entry of the same unit. -/
  | unitReference (offset : UInt64)
  /-- An entry of any unit. -/
  | globalReference (offset : UInt64)
  /-- A type by its signature, or an entry of another file. -/
  | foreignReference
  | string (content : ByteArray)
  | stringOffset (offset : UInt64)
  | lineStringOffset (offset : UInt64)
  /-- The number of an entry of the string offset table. -/
  | stringIndex (index : UInt64)
  /-- A string of another file. -/
  | foreignString
  /-- The number of an entry of the location list table. -/
  | locationListIndex (index : UInt64)
  | rangeListIndex

structure Attribute where
  name : AttributeName
  value : AttributeValue

/-! ## Reading -/

/-- What an abbreviation says about an attribute: its name, the code of its form, and its value
if that is the same for all entries. -/
structure AttributeSpec where
  name : AttributeName
  form : UInt16
  implicit : Option Int64
deriving DecidableEq, Repr

namespace AttributeValue

open Read

/-- Reads a value of any form but an indirect one. -/
def readDirect (enc : Encoding) (spec : AttributeSpec) : Form → Read AttributeValue
  | .addr => return .address (← Read.address enc.addressSize)
  | .block1 => return .block (← counted 1)
  | .block2 => return .block (← counted 2)
  | .block4 => return .block (← counted 4)
  | .block | .exprloc => return .block (← counted')
  | .data1 => return .unsigned (← u8)
  | .data2 => return .unsigned (← u16)
  | .data4 => do
    let value ← u32
    if enc.offsetSize = .four && spec.name.isOffsetIn enc.version then return .sectionOffset value
    else return .unsigned value
  | .data8 => do
    let value ← u64
    if enc.offsetSize = .eight && spec.name.isOffsetIn enc.version then return .sectionOffset value
    else return .unsigned value
  | .data16 => return .block (← bytes 16)
  | .udata => return .unsigned (← uleb)
  | .sdata => return .signed (← sleb)
  | .implicitConst =>
    match spec.implicit with
    | some value => return .signed value
    | none => failure
  | .string => return .string (← terminated)
  | .strp => return .stringOffset (← offset enc.offsetSize)
  | .lineStrp => return .lineStringOffset (← offset enc.offsetSize)
  | .strpSup => do
    let _ ← offset enc.offsetSize
    return .foreignString
  | .strx => return .stringIndex (← uleb)
  | .strx1 => return .stringIndex (← u8)
  | .strx2 => return .stringIndex (← u16)
  | .strx3 => return .stringIndex (← fixed 3)
  | .strx4 => return .stringIndex (← u32)
  | .addrx => return .addressIndex (← uleb)
  | .addrx1 => return .addressIndex (← u8)
  | .addrx2 => return .addressIndex (← u16)
  | .addrx3 => return .addressIndex (← fixed 3)
  | .addrx4 => return .addressIndex (← u32)
  | .flag => return .flag ((← byte) != 0)
  | .flagPresent => return .flag true
  | .ref1 => return .unitReference (← u8)
  | .ref2 => return .unitReference (← u16)
  | .ref4 => return .unitReference (← u32)
  | .ref8 => return .unitReference (← u64)
  | .refUdata => return .unitReference (← uleb)
  | .refAddr =>
    -- In version two a global reference is as wide as an address.
    if enc.version = 2 then return .globalReference (← Read.address enc.addressSize)
    else return .globalReference (← offset enc.offsetSize)
  | .refSig8 | .refSup8 => do
    skip 8
    return .foreignReference
  | .refSup4 => do
    skip 4
    return .foreignReference
  | .refAlt => do
    let _ ← offset enc.offsetSize
    return .foreignReference
  | .secOffset => return .sectionOffset (← offset enc.offsetSize)
  | .loclistx => return .locationListIndex (← uleb)
  | .rnglistx => do
    let _ ← uleb
    return .rangeListIndex
  | .indirect => failure

/-- Reads a value whose form has the given code.  A form can be stored in front of its value,
and so on, but for each of them there is a byte at least. -/
def readForm (enc : Encoding) (spec : AttributeSpec) : Nat → UInt16 → Read AttributeValue
  | 0, _ => failure
  | fuel + 1, code =>
    match Form.ofCode? code with
    | some .indirect => do readForm enc spec fuel (← uleb16)
    | some form => readDirect enc spec form
    | none => failure

end AttributeValue

def Attribute.read (enc : Encoding) (spec : AttributeSpec) : Read Attribute := do
  let value ← AttributeValue.readForm enc spec ((← Read.remaining) + 1) spec.form
  return ⟨spec.name, value⟩

/-! ## Meaning -/

namespace Attribute

/-- Whether the value stands for a name from a list. -/
def isCode (a : Attribute) : Bool :=
  match a.name.codeLimit?, a.value with
  | some limit, .unsigned value => decide (value ≤ limit)
  | some limit, .signed value => decide (0 ≤ value) && decide (value.toUInt64 ≤ limit)
  | _, _ => false

/-- A quantity that is not negative. -/
def unsigned? (a : Attribute) : Option UInt64 :=
  if a.isCode then none
  else
    match a.value with
    | .unsigned value => some value
    | .signed value => if value < 0 then none else some value.toUInt64
    | _ => none

/-- A quantity.  An unsigned one is taken for what its bits mean with a sign. -/
def signed? (a : Attribute) : Option Int64 :=
  if a.isCode then none
  else
    match a.value with
    | .unsigned value => some value.toInt64
    | .signed value => some value
    | _ => none

/-- The place of a list of locations. -/
def locationList? (a : Attribute) : Option UInt64 :=
  match a.value with
  | .sectionOffset offset => if a.name.holdsLocation then some offset else none
  | _ => none

/-- The place that an attribute other than one of locations refers to. -/
def sectionOffset? (a : Attribute) : Option UInt64 :=
  match a.value with
  | .sectionOffset offset => some offset
  | _ => none

end Attribute

end DebugSymbols
