import DebugSymbols.Compression.Zstd.ByteCode

/-!
Bytes in a prefix code, as a single stream.  They are decoded one by one or in pairs, which makes
a difference for streams that do not end with their last byte.
-/

namespace DebugSymbols.Zstd

/-- Bytes that are being decoded. -/
structure ByteStream where
  bits : BackwardBits
  output : ByteArray

namespace ByteStream

def push (s : ByteStream) (byte : UInt8) (width : Nat) : ByteStream :=
  ⟨s.bits.skip width, s.output.push byte⟩

/-- A byte. -/
def single (c : ByteCode) (s : ByteStream) : ByteStream :=
  let (byte, width) := c.first (s.bits.peek c.lookedAt)
  s.push byte width

/-- A byte, or two of them. -/
def pair (c : ByteCode) (s : ByteStream) : ByteStream :=
  let bits := s.bits.peek c.lookedAt
  let (byte, width) := c.first bits
  match c.second? bits with
  | some (next, both) => ⟨s.bits.skip both, (s.output.push byte).push next⟩
  | none => s.push byte width

/-- The last byte.  A byte that would follow it is passed over as well, as far as there are bits
for it; and if there are no bits at all, nothing is passed over. -/
def last (c : ByteCode) (s : ByteStream) : ByteStream :=
  let bits := s.bits.peek c.lookedAt
  let (byte, width) := c.first bits
  match c.second? bits with
  | some (_, both) =>
    let left := if 0 < s.bits.left then max (s.bits.left - both) 0 else s.bits.left
    ⟨{ s.bits with left }, s.output.push byte⟩
  | none => s.push byte width

/-- So many bytes, one by one. -/
def singles (c : ByteCode) : Nat → ByteStream → ByteStream
  | 0, s => s
  | n + 1, s => singles c n (s.single c)

/-- So many bytes, in pairs as far as possible. -/
def pairs (c : ByteCode) : Nat → ByteStream → ByteStream
  | 0, s => s
  | 1, s => s.last c
  | n + 2, s =>
    let next := s.pair c
    if next.output.size = s.output.size + 2 then pairs c n next else pairs c (n + 1) next

def decode (c : ByteCode) (n : Nat) (s : ByteStream) : ByteStream :=
  if c.isPaired then pairs c n s else singles c n s

/-- A number of bytes, with which all bits are used up. -/
def decodeAll? (c : ByteCode) (n : Nat) (data : ByteArray) : Option ByteArray := do
  let bits ← BackwardBits.ofBytes? data
  let s := decode c n ⟨bits, .empty⟩
  if s.bits.isSpent then some s.output else none

end ByteStream

end DebugSymbols.Zstd
