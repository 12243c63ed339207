import DebugSymbols.Dwarf.Encoding
import DebugSymbols.Dwarf.Location

/-!
Location expressions: a sequence of operations, each an opcode and its operands.  Operations
that have no atom of their own still need to be read, as the next one follows their operands.
-/

namespace DebugSymbols.Expression

open Read

/-- What an opcode is followed by. -/
inductive Operand where
  | fixed (width : Nat)
  | unsigned
  | signed
  /-- Bytes behind a length of one byte. -/
  | shortBlock
  /-- Bytes behind a length of variable width. -/
  | block
  /-- A variable of a stack machine: its kind, and its number in a width that the kind tells. -/
  | machineVariable
deriving DecidableEq, Repr

def Operand.skip : Operand → Read Unit
  | fixed width => Read.skip width
  | unsigned => do let _ ← uleb
  | signed => do let _ ← sleb
  | shortBlock => do let _ ← counted 1
  | block => do let _ ← counted'
  | machineVariable => do
    match ← byte with
    | 0 | 1 | 2 => do
      let number ← uleb
      if 0xffffffff < number then failure
    | 3 => Read.skip 4
    | _ => failure

/-- The operands of an operation without an atom of its own. -/
def operands? (enc : Encoding) (opcode : UInt8) : Option (List Operand) :=
  let offset := .fixed enc.offsetSize.bytes
  match opcode with
  | 0x08 | 0x09 | 0x15 | 0x94 | 0x95 => some [.fixed 1]
  | 0x0a | 0x0b | 0x28 | 0x2f | 0x98 => some [.fixed 2]
  | 0x0c | 0x0d | 0x99 | 0xfa => some [.fixed 4]
  | 0x0e | 0x0f => some [.fixed 8]
  | 0x10 | 0x93 | 0xa1 | 0xa2 | 0xa8 | 0xa9 | 0xf7 | 0xf9 | 0xfb | 0xfc => some [.unsigned]
  | 0x11 => some [.signed]
  | 0x9a => some [offset]
  | 0x9d => some [.unsigned, .unsigned]
  | 0x9e | 0xa3 | 0xf3 => some [.block]
  | 0xa0 | 0xf2 =>
    some [if enc.version = 2 then .fixed enc.addressSize else offset, .signed]
  | 0xa4 | 0xf4 => some [.unsigned, .shortBlock]
  | 0xa6 | 0xa7 | 0xf6 => some [.fixed 1, .unsigned]
  | 0xed => some [.machineVariable]
  | 0x06 | 0x12 | 0x13 | 0x14 | 0x96 | 0x97 | 0x9b | 0x9f | 0xe0 => some []
  | _ =>
    -- stack and arithmetic operations, comparisons and literals
    if 0x16 ≤ opcode ∧ opcode ≤ 0x2e ∨ 0x30 ≤ opcode ∧ opcode ≤ 0x4f then some [] else none

/-- The number of a register; there are 65536 of them. -/
def registerNumber : Read UInt16 := do
  let number ← uleb
  if number ≤ 0xffff then return number.toUInt16 else failure

def readAtom (enc : Encoding) : Read LocationAtom := do
  let opcode ← byte
  if 0x50 ≤ opcode ∧ opcode ≤ 0x6f then return .register (opcode - 0x50).toUInt16
  else if 0x70 ≤ opcode ∧ opcode ≤ 0x8f then
    return .registerOffset (opcode - 0x70).toUInt16 (← sleb)
  else
    match opcode with
    | 0x03 => return .address (← address enc.addressSize)
    | 0x23 => return .plusConstant (← uleb)
    | 0x90 => return .register (← registerNumber)
    | 0x91 => return .frameOffset (← sleb)
    | 0x92 =>
      let number ← registerNumber
      return .registerOffset number (← sleb)
    | 0x9c => return .callFrameAddress
    | 0xa5 | 0xf5 =>
      -- The value of a register, as a value of the type that follows.
      let number ← registerNumber
      let _ ← uleb
      return .registerOffset number 0
    | _ =>
      match operands? enc opcode with
      | some operands =>
        operands.forM Operand.skip
        return .unsupported
      | none => failure

/-- All operations of an expression. -/
def decode (enc : Encoding) (expression : ByteArray) : Option (List LocationAtom) :=
  (untilNone do if ← atEnd then return none else some <$> readAtom enc).run' expression

end DebugSymbols.Expression
