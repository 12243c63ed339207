/-!
Text from bytes that need not be well-formed UTF-8: each longest stretch of bytes that begins a
character but does not complete it, and each byte that begins none, becomes a replacement
character.
-/

namespace DebugSymbols.Utf8

def replacement : Char := Char.ofNat 0xfffd

/-- How many bytes follow a leading byte, and the bounds of the first of them.  The bounds rule
out longer forms of short characters, surrogates and numbers past the last character. -/
def follow? (b : UInt8) : Option (Nat × UInt8 × UInt8) :=
  if b < 0xc2 then none
  else if b < 0xe0 then some (1, 0x80, 0xbf)
  else if b = 0xe0 then some (2, 0xa0, 0xbf)
  else if b = 0xed then some (2, 0x80, 0x9f)
  else if b < 0xf0 then some (2, 0x80, 0xbf)
  else if b = 0xf0 then some (3, 0x90, 0xbf)
  else if b < 0xf4 then some (3, 0x80, 0xbf)
  else if b = 0xf4 then some (3, 0x80, 0x8f)
  else none

/-- The bits of a leading byte that belong to the character. -/
def leadBits (b : UInt8) : Nat :=
  if b < 0xe0 then b.toNat % 32 else if b < 0xf0 then b.toNat % 16 else b.toNat % 8

/-- Reads `n` bytes on from the bits `acc`, the first of them within the bounds.  Stops before
a byte that cannot follow. -/
def complete : Nat → UInt8 → UInt8 → Nat → List UInt8 → Option Nat × List UInt8
  | 0, _, _, acc, rest => (some acc, rest)
  | _ + 1, _, _, _, [] => (none, [])
  | n + 1, low, high, acc, b :: rest =>
    if low ≤ b ∧ b ≤ high then complete n 0x80 0xbf (64 * acc + b.toNat % 64) rest
    else (none, b :: rest)

theorem length_complete_le (n : Nat) (low high : UInt8) (acc : Nat) (bytes : List UInt8) :
    (complete n low high acc bytes).2.length ≤ bytes.length := by
  fun_induction complete n low high acc bytes with
  | case1 | case2 => simp
  | case3 n low high acc b rest h ih => exact Nat.le_trans ih (by simp)
  | case4 => simp

def chars : List UInt8 → List Char
  | [] => []
  | b :: rest =>
    if b < 0x80 then Char.ofNat b.toNat :: chars rest
    else
      match follow? b with
      | none => replacement :: chars rest
      | some (n, low, high) =>
        let r := complete n low high (leadBits b) rest
        have := length_complete_le n low high (leadBits b) rest
        r.1.elim replacement Char.ofNat :: chars r.2
termination_by bytes => bytes.length

def decode (bytes : ByteArray) : String := String.ofList (chars bytes.toList)

end DebugSymbols.Utf8
