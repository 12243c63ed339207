import DebugSymbols.Bytes.Leb128

/-!
How the fields of a unit are stored: offsets take four or eight bytes, addresses as many as the
target's.  All numbers have their lowest byte first.
-/

namespace DebugSymbols

inductive OffsetSize where
  | four
  | eight
deriving DecidableEq, Repr

def OffsetSize.bytes : OffsetSize → Nat
  | four => 4
  | eight => 8

/-- How many bytes a length field takes: that of a unit with wide offsets begins with a mark. -/
def OffsetSize.lengthBytes : OffsetSize → Nat
  | four => 4
  | eight => 12

structure Encoding where
  version : Nat
  offsetSize : OffsetSize
  addressSize : Nat
deriving DecidableEq, Repr

/-- The greatest address of the given size in bytes. -/
def maxAddress (size : Nat) : UInt64 := (1 <<< (8 * size) - 1).toUInt64

namespace Read

def u8 : Read UInt64 := return (← byte).toUInt64

/-- A number of the given width in bytes. -/
def fixed (width : Nat) : Read UInt64 := return (← number .little width).toUInt64

def u16 : Read UInt64 := fixed 2
def u32 : Read UInt64 := fixed 4
def u64 : Read UInt64 := fixed 8

def offset (size : OffsetSize) : Read UInt64 := fixed size.bytes

/-- A number as wide as some address. -/
def address (size : Nat) : Read UInt64 :=
  if size ∈ [1, 2, 4, 8] then fixed size else failure

def addressSize : Read Nat := do
  let size := (← byte).toNat
  if size ∈ [1, 2, 4, 8] then return size else failure

/-- The length of what follows, and the size of offsets in it. -/
def initialLength : Read (Nat × OffsetSize) := do
  let n ← u32
  if n < 0xfffffff0 then return (n.toNat, .four)
  else if n = 0xffffffff then return ((← u64).toNat, .eight)
  else failure

/-- Bytes behind a length of the given width. -/
def counted (width : Nat) : Read ByteArray := do bytes (← fixed width).toNat

/-- Bytes behind a length of variable width. -/
def counted' : Read ByteArray := do bytes (← uleb).toNat

end Read

end DebugSymbols
