import DebugSymbols.Compression.Zstd.Earlier.Copying
import DebugSymbols.Compression.Zstd.Literals

/-!
The literal bytes of a block in earlier versions.  Their header is another one; and a code can be
given by how many bytes it has, if their words are equally long but for the last one.
-/

namespace DebugSymbols.Zstd.EarlierVersion

/-! ## Headers -/

inductive LiteralsKind where
  | coded
  /-- In the code of a block before. -/
  | codedAsBefore
  | plain
  | repeated
deriving DecidableEq, Repr

structure LiteralsHeader where
  kind : LiteralsKind
  isSingleStream : Bool
  size : Nat
  /-- How many bytes follow the header. -/
  stored : Nat

/-- The header in version 0.4, the lowest bits first. -/
def readFirstHeader : Read LiteralsHeader := do
  match (← Read.peekByte).toNat % 4 with
  | 0 =>
    let fields ← Read.number .little 5
    return ⟨.coded, false, fields / 4 % 0x80000, fields >>> 21⟩
  | 1 =>
    let size := (← Read.number .little 3) / 4
    return ⟨.plain, false, size, size⟩
  | 2 => return ⟨.repeated, false, (← Read.number .little 3) / 4, 1⟩
  | _ => failure

/-- The header since version 0.5, the highest bits first. -/
def readSecondHeader : Read LiteralsHeader := do
  let head := (← Read.peekByte).toNat
  let kind := head / 64
  let form := head / 16 % 4
  if kind < 2 then
    let width := if form ≤ 1 then 10 else if form = 2 then 14 else 18
    let fields ← Read.number .big ((4 + 2 * width) / 8)
    return ⟨if kind = 0 then .coded else .codedAsBefore, form = 1,
      (fields >>> width) % (1 <<< width), fields % (1 <<< width)⟩
  else
    let width := if form ≤ 1 then 5 else if form = 2 then 12 else 20
    let size := (← Read.number .big ((width + 4) / 8)) % (1 <<< width)
    return if kind = 2 then ⟨.plain, false, size, size⟩ else ⟨.repeated, false, size, 1⟩

/-! ## Codes -/

/-- Weights from two states in turn, until the bits are used up and both states are the first
one.  The state whose turn it is comes first. -/
def weightsToStart (t : StateTable) : Nat → Nat → Nat → BackwardBits → Option (List Nat)
  | fuel, state, other, b =>
    if b.isSpent ∧ state = 0 then if other = 0 then some [] else none
    else
      match fuel with
      | 0 => none
      | fuel + 1 =>
        if b.isOverrun then none
        else
          let (state', b) := (t.next state).run b
          (t.symbol state :: ·) <$> weightsToStart t fuel other state' b

/-- How weights are read.  The end of the bits is not looked for before the first two. -/
def weightReader : EarlierVersion → ByteCode.WeightReader
  | v4 | v5 => fun t => weightsToStart t ByteCode.maxWeights
  | v6 | v7 => fun t => ByteCode.weights t (ByteCode.maxWeights - 1)

/-- How many bytes have the least weight, if that is told by a single number. -/
def evenCounts : List Nat := [1, 2, 3, 4, 7, 8, 15, 16, 31, 32, 63, 64, 127, 128]

/-- The least number of bytes that tell how many states symbols have. -/
def minTableBytes : Nat := 4

def readCode (v : EarlierVersion) (isPaired : Bool) : Read ByteCode := do
  let head := (← Read.byte).toNat
  let weights ←
    if head < minTableBytes then failure
    else if head < 128 then ByteCode.readPackedWeights 12 v.weightReader head
    else if head < 242 then ByteCode.readPlainWeights (head - 127)
    else pure (List.replicate (evenCounts[head - 242]?.getD 0) 1)
  let maxWidth := if v = v7 ∧ !isPaired then 13 else 12
  ByteCode.ofWeights? ⟨maxWidth, 12⟩ isPaired weights

/-! ## Literals -/

/-- What it takes to decode 256 bytes, and to prepare for that, as the earlier versions put it. -/
def decodingTimes : List ((Nat × Nat) × (Nat × Nat)) :=
  [((0, 0), (1, 1)), ((0, 0), (1, 1)), ((38, 130), (1313, 74)), ((448, 128), (1353, 74)),
    ((556, 128), (1353, 74)), ((714, 128), (1418, 74)), ((883, 128), (1437, 74)),
    ((897, 128), (1515, 75)), ((926, 128), (1613, 75)), ((947, 128), (1729, 77)),
    ((1107, 128), (2083, 81)), ((1177, 128), (2379, 87)), ((1242, 128), (2415, 93)),
    ((1349, 128), (2644, 106)), ((1455, 128), (2422, 124)), ((722, 128), (1891, 145))]

/-- Whether four streams are decoded in pairs. -/
def inPairs (v : EarlierVersion) (h : LiteralsHeader) : Bool :=
  Literals.prefersPairs decodingTimes (if v = v7 then 8 else 16) h.size h.stored

/-- Bytes behind their own code. -/
def readCoded (v : EarlierVersion) (h : LiteralsHeader) : Read (ByteArray × ByteCode) := do
  let c ← v.readCode (!h.isSingleStream && v.inPairs h)
  let data ← Read.bytes (← Read.remaining)
  if h.isSingleStream then return (← ByteStream.decodeAll? c h.size data, c)
  else return (← FourStreams.decodeEach? c h.size (← FourStreams.starts? data) data, c)

/-- Bytes in a code, and the code that is to be used again.  Before version 0.7 a single byte
stands for all of them, and in version 0.6 bytes may be stored as they are. -/
def decodeCoded? (v : EarlierVersion) (h : LiteralsHeader) (content : ByteArray) :
    Option (ByteArray × Option ByteCode) := do
  let isEmpty := h.size = 0 ∧ (!h.isSingleStream ∨ v = v4 ∨ v = v5)
  if isEmpty then none
  else if !h.isSingleStream ∧ h.size ≤ content.size then
    if v = v6 ∧ h.size = content.size then return (content, none) else none
  else if !h.isSingleStream ∧ content.size = 1 then
    if v = v7 then none
    else return (repeated (content[0]?.getD 0) h.size, none)
  else
    let (bytes, c) ← (v.readCoded h).run' content
    return (bytes, some c)

/-- Bytes in the code of a block before, which has to be one for pairs. -/
def decodeAsBefore? (v : EarlierVersion) (h : LiteralsHeader) (known : Option ByteCode)
    (content : ByteArray) : Option ByteArray := do
  let c ← known
  if v ≠ v7 ∨ !h.isSingleStream ∨ !c.isPaired then none else ByteStream.decodeAll? c h.size content

/-- Plain literals, which are used in their place if a stride follows.  Otherwise they begin with
their header in version 0.4. -/
def readPlain (v : EarlierVersion) (size : Nat) : Read LooseLiterals := do
  let bytes ← Read.bytes size
  let c ← get
  if stride ≤ (← Read.remaining) then
    return ⟨bytes, c.data.extract c.position (c.position + stride)⟩
  else return .ofBytes (if v = v4 then c.data.extract 0 size else bytes)

/-- A byte that is repeated. -/
def readRepeated (size : Nat) : Read LooseLiterals := do
  let byte ← Read.byte
  return ⟨repeated byte size, repeated byte stride⟩

/-- The literals at the front of a block. -/
def readLiterals (v : EarlierVersion) (limit : Nat) (known : Option ByteCode) :
    Read (LooseLiterals × Option ByteCode) := do
  let isLong := Literals.minCodedBlock ≤ (← Read.remaining)
  let h ← if v = v4 then readFirstHeader else readSecondHeader
  if limit < h.size then failure
  match h.kind with
  | .plain => return (← v.readPlain h.size, known)
  | .repeated => return (← readRepeated h.size, known)
  | .coded =>
    if !isLong then failure
    let (bytes, code) ← v.decodeCoded? h (← Read.bytes h.stored)
    return (.ofBytes bytes, code)
  | .codedAsBefore =>
    return (.ofBytes (← v.decodeAsBefore? h known (← Read.bytes h.stored)), known)

end DebugSymbols.Zstd.EarlierVersion
