import DebugSymbols.Bytes.Order
import DebugSymbols.ObjectFile.Error

/-!
Relocations: fields of a section whose value depends on the address of something else.  Only
those are applied that put a whole address into a field of four or eight bytes, which is all
that debugging information needs.
-/

namespace DebugSymbols

/-- What a field is to hold. -/
inductive Relocation.Value where
  /-- An address, in so many bits. -/
  | address (bits : Nat)
  /-- Anything else, such as the distance to an address. -/
  | other
deriving DecidableEq, Repr

structure Relocation where
  /-- Where the field is in its section. -/
  offset : UInt64
  value : Relocation.Value
  /-- The address that is referred to, unless the file lacks what is at it. -/
  target : Option UInt64
  addend : Int64
  /-- Whether the field itself holds an addend, too. -/
  keepsField : Bool
deriving DecidableEq, Repr

namespace Relocation

/-- How many bytes are replaced. -/
def width? (r : Relocation) : Option Nat :=
  match r.value with
  | .address 32 => some 4
  | .address 64 => some 8
  | _ => none

/-- What a field holds afterwards that holds `old`. -/
def fieldValue (r : Relocation) (target : UInt64) (old : Nat) : UInt64 :=
  (if r.keepsField then old.toUInt64 else 0) + target + r.addend.toUInt64

/-- Replaces a field, which has its lowest byte first whatever the order of the file. -/
def patch (r : Relocation) (target : UInt64) (width : Nat) (content : List UInt8) : List UInt8 :=
  let start := r.offset.toNat
  let old := littleEndian ((content.drop start).take width)
  content.take start ++ toLittleEndian width (r.fieldValue target old).toNat ++
    content.drop (start + width)

def apply (r : Relocation) (content : List UInt8) : Except ObjectFile.Error (List UInt8) :=
  match r.target, r.width? with
  | none, _ => .error (.badRelocationTarget r.offset)
  | some _, none => .error (.unsupportedRelocation r.offset)
  | some target, some width =>
    if r.offset.toNat + width ≤ content.length then .ok (r.patch target width content)
    else .error (.relocationOutOfBounds r.offset)

/-- Applies relocations one after the other, until one fails. -/
def applyAll (relocations : List Relocation) (content : List UInt8) :
    Except ObjectFile.Error (List UInt8) :=
  relocations.foldlM (fun content r => r.apply content) content

theorem length_patch (r : Relocation) (target : UInt64) (width : Nat) (content : List UInt8)
    (h : r.offset.toNat + width ≤ content.length) :
    (r.patch target width content).length = content.length := by
  simp [patch, length_toLittleEndian]
  omega

end Relocation

end DebugSymbols
