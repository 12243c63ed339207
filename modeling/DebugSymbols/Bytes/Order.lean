/-!
Numbers as bytes.  Main statements: `littleEndian_toLittleEndian`, a number that is written and
read back is kept up to what the width has no room for, and `toLittleEndian_littleEndian`, bytes
that are read and written back are kept.
-/

namespace DebugSymbols

inductive ByteOrder where
  | little
  | big
deriving DecidableEq, Repr

/-- The number that bytes stand for, the first one the lowest. -/
def littleEndian : List UInt8 → Nat
  | [] => 0
  | b :: rest => b.toNat + 256 * littleEndian rest

def ByteOrder.decode : ByteOrder → List UInt8 → Nat
  | little, bytes => littleEndian bytes
  | big, bytes => littleEndian bytes.reverse

/-- The lowest bytes of a number, as many as the width says. -/
def toLittleEndian : Nat → Nat → List UInt8
  | 0, _ => []
  | width + 1, n => n.toUInt8 :: toLittleEndian width (n / 256)

theorem length_toLittleEndian (width n : Nat) : (toLittleEndian width n).length = width := by
  induction width generalizing n with
  | zero => rfl
  | succ width ih => simp [toLittleEndian, ih]

theorem littleEndian_lt (bytes : List UInt8) : littleEndian bytes < Nat.pow 256 bytes.length := by
  induction bytes with
  | nil => exact Nat.one_pos
  | cons b rest ih =>
    have hb := b.toNat_lt
    have step : 256 * (littleEndian rest + 1) ≤ Nat.pow 256 (b :: rest).length := by
      rw [Nat.mul_comm]
      exact Nat.mul_le_mul_right 256 ih
    rw [littleEndian]
    omega

theorem littleEndian_toLittleEndian (width n : Nat) :
    littleEndian (toLittleEndian width n) = n % Nat.pow 256 width := by
  induction width generalizing n with
  | zero => exact (Nat.mod_one n).symm
  | succ width ih =>
    have step : Nat.pow 256 (width + 1) = 256 * Nat.pow 256 width := Nat.mul_comm _ _
    rw [toLittleEndian, littleEndian, ih, step, Nat.mod_mul]
    rfl

theorem toLittleEndian_littleEndian (bytes : List UInt8) :
    toLittleEndian bytes.length (littleEndian bytes) = bytes := by
  induction bytes with
  | nil => rfl
  | cons b rest ih =>
    have := b.toNat_lt
    have head : (b.toNat + 256 * littleEndian rest).toUInt8 = b := by
      apply UInt8.toNat.inj
      simp [Nat.toUInt8]
    have tail : (b.toNat + 256 * littleEndian rest) / 256 = littleEndian rest := by omega
    simp [toLittleEndian, littleEndian, head, tail, ih]

end DebugSymbols
