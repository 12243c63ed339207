import DebugSymbols.Bytes.Cursor

/-!
Numbers of variable length: seven bits to a byte, lowest first, every byte but the last with
its high bit set.  A signed number is negative if bit six of its last byte is set.
A number of 64 bits takes ten bytes at most, the tenth of which carries a single bit.
-/

namespace DebugSymbols.Read

/-- The bytes of a number, their high bits cleared. -/
def groups : Nat → Read (List UInt8)
  | 0 => failure
  | n + 1 => do
    let b ← byte
    if b < 0x80 then return [b]
    else return (b - 0x80) :: (← groups n)

def base128 : List UInt8 → Nat
  | [] => 0
  | b :: rest => b.toNat + 128 * base128 rest

/-- An unsigned number of 64 bits. -/
def uleb : Read UInt64 := do
  let n := base128 (← groups 10)
  if n < UInt64.size then return n.toUInt64 else failure

/-- An unsigned number of 16 bits. -/
def uleb16 : Read UInt16 := do
  let n := base128 (← groups 3)
  if n < UInt16.size then return n.toUInt16 else failure

/-- A signed number of 64 bits.  Of its tenth byte the seven bits have to agree. -/
def sleb : Read Int64 := do
  let gs ← groups 10
  let last := gs.getLast?.getD 0
  if gs.length = 10 ∧ last ≠ 0 ∧ last ≠ 0x7f then failure
  let n := base128 gs
  let width := 1 <<< (7 * gs.length)
  return Int64.ofInt (if last < 0x40 then n else (n : Int) - width)

end DebugSymbols.Read
