import DebugSymbols.Compression.Zstd.FourStreams

/-!
The literal bytes of a block: as they are, a single one repeated, or in a prefix code.
-/

namespace DebugSymbols.Zstd

structure Literals where
  bytes : ByteArray
  /-- The code that the next block may use. -/
  code : Option ByteCode
  /-- Whether they are as they are in the block, and not at its end. -/
  inPlace : Bool

namespace Literals

/-- The size of literals that are not coded, in as many bytes as the low bits tell. -/
def readPlainSize : Read Nat := do
  let head := (← Read.byte).toNat
  match head / 4 % 4 with
  | 1 => return head / 16 + 16 * (← Read.number .little 1)
  | 3 => return head / 16 + 16 * (← Read.number .little 2)
  | _ => return head / 8

/-- How the sizes of coded literals are stored. -/
structure CodedSizes where
  isSingleStream : Bool
  size : Nat
  /-- The size of the code and the streams. -/
  stored : Nat

def readCodedSizes : Read CodedSizes := do
  let head := (← Read.byte).toNat
  let form := head / 4 % 4
  let width := if form ≤ 1 then 10 else if form = 2 then 14 else 18
  let fields := head / 16 + 16 * (← Read.number .little ((4 + 2 * width) / 8 - 1))
  return ⟨form = 0, fields % (1 <<< width), fields >>> width⟩

/-- What it takes to decode 256 bytes, and to prepare for that, one by one and in pairs, by how
many bytes they take in sixteenths of their number. -/
def decodingTimes : List ((Nat × Nat) × (Nat × Nat)) :=
  [((0, 0), (1, 1)), ((0, 0), (1, 1)), ((150, 216), (381, 119)), ((170, 205), (514, 112)),
    ((177, 199), (539, 110)), ((197, 194), (644, 107)), ((221, 192), (735, 107)),
    ((256, 189), (881, 106)), ((359, 188), (1167, 109)), ((582, 187), (1570, 114)),
    ((688, 187), (1712, 122)), ((825, 186), (1965, 136)), ((976, 185), (2131, 150)),
    ((1180, 186), (2070, 175)), ((1377, 185), (1731, 202)), ((1412, 185), (1695, 202))]

/-- Whether bytes are decoded in pairs, which is done if it seems to be faster by a share. -/
def prefersPairs (times : List ((Nat × Nat) × (Nat × Nat))) (advantage size stored : Nat) : Bool :=
  let share := if size ≤ stored then 15 else 16 * stored / size
  let ((single, singleStep), (pair, pairStep)) := times[share]?.getD ((0, 0), (1, 1))
  let parts := size / 256
  let pairTime := pair + pairStep * parts
  pairTime + pairTime / advantage < single + singleStep * parts

/-- Whether four streams are decoded in pairs. -/
def CodedSizes.inPairs (s : CodedSizes) : Bool := prefersPairs decodingTimes 32 s.size s.stored

/-- The bytes in one stream or in four. -/
def decode? (s : CodedSizes) (c : ByteCode) (data : ByteArray) : Option ByteArray :=
  if s.isSingleStream then ByteStream.decodeAll? c s.size data
  else FourStreams.decode? c s.size data

/-- The least size of a block with coded literals. -/
def minCodedBlock : Nat := 5

/-- Literals in a code, which can be that of a block before. -/
def readCoded (limit : Nat) (known : Option ByteCode) (ownCode : Bool) : Read Literals := do
  if (← Read.remaining) < minCodedBlock then failure
  let s ← readCodedSizes
  if limit < s.size then failure
  let content ← Read.bytes s.stored
  let r : Read (ByteArray × ByteCode) := do
    let c ← if ownCode then ByteCode.read (!s.isSingleStream && s.inPairs) else known
    return (← decode? s c (← Read.bytes (← Read.remaining)), c)
  let (bytes, c) ← r.run' content
  return ⟨bytes, some c, false⟩

/-- How many bytes have to follow literals that are used in their place. -/
def margin : Nat := 32

/-- The literals at the front of a block, which are no more than the limit. -/
def read (limit : Nat) (known : Option ByteCode) : Read Literals := do
  match (← Read.peekByte).toNat % 4 with
  | 0 =>
    let size ← readPlainSize
    if limit < size then failure
    let bytes ← Read.bytes size
    return ⟨bytes, known, margin ≤ (← Read.remaining)⟩
  | 1 =>
    let size ← readPlainSize
    if limit < size then failure
    return ⟨(List.replicate size (← Read.byte)).toByteArray, known, false⟩
  | kind => readCoded limit known (kind = 2)

end Literals

end DebugSymbols.Zstd
