/-!
The kinds of debugging information entries that matter here, and the codes they are stored
with.  Main statement: `ofCode_code`, every kind that has a name is read back from its code.
-/

namespace DebugSymbols

inductive Tag where
  | arrayType
  | enumerationType
  | formalParameter
  | label
  | member
  | pointerType
  | structureType
  | subroutineType
  | typedef
  | unionType
  | subrangeType
  | baseType
  | constType
  | enumerator
  | subprogram
  | variable_
  | volatileType
  | unspecifiedType
  | other (code : UInt16)
deriving DecidableEq, Repr

namespace Tag

def code : Tag → UInt16
  | arrayType => 0x01
  | enumerationType => 0x04
  | formalParameter => 0x05
  | label => 0x0a
  | member => 0x0d
  | pointerType => 0x0f
  | structureType => 0x13
  | subroutineType => 0x15
  | typedef => 0x16
  | unionType => 0x17
  | subrangeType => 0x21
  | baseType => 0x24
  | constType => 0x26
  | enumerator => 0x28
  | subprogram => 0x2e
  | variable_ => 0x34
  | volatileType => 0x35
  | unspecifiedType => 0x3b
  | other code => code

/-- All tags but the `other` ones. -/
def named : List Tag :=
  [arrayType, enumerationType, formalParameter, label, member, pointerType, structureType,
    subroutineType, typedef, unionType, subrangeType, baseType, constType, enumerator,
    subprogram, variable_, volatileType, unspecifiedType]

def ofCode (code : UInt16) : Tag := (named.find? (·.code = code)).getD (other code)

theorem ofCode_code : ∀ t ∈ named, ofCode t.code = t := by decide

theorem code_ofCode (c : UInt16) : (ofCode c).code = c := by
  unfold ofCode
  cases h : named.find? (·.code = c) with
  | none => rfl
  | some t => simpa using List.find?_some h

/-- Whether entries of this kind describe a type. -/
def isType : Tag → Bool
  | baseType | unspecifiedType | enumerationType | constType | volatileType | pointerType
  | typedef | arrayType | structureType | unionType | subroutineType => true
  | _ => false

end Tag

end DebugSymbols
