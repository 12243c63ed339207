import DebugSymbols.Compression.Zstd.StateTable

/-!
Prefix codes for bytes.  A code is given by the weights of its bytes; the greater the weight, the
shorter the word.
-/

namespace DebugSymbols.Zstd

/-- By the next bits, a byte and how many of the bits belong to it. -/
structure ByteCode where
  /-- How long the longest word is. -/
  maxWidth : Nat
  /-- How many bits are looked at for a word, or for two of them. -/
  lookedAt : Nat
  /-- By the next `maxWidth` bits. -/
  entries : Array (UInt8 × Nat)
  /-- Whether two bytes are decoded at once if both have their words in the same bits. -/
  isPaired : Bool

/-- What bounds the words of a code. -/
structure ByteCodeLimits where
  maxWidth : Nat
  /-- The least number of bits that are looked at. -/
  minLookedAt : Nat

def ByteCodeLimits.standard : ByteCodeLimits := ⟨12, 11⟩

namespace ByteCode

/-- The share of a byte of that weight in all strings of bits. -/
def share (weight : Nat) : Nat := if weight = 0 then 0 else 1 <<< (weight - 1)

/-- The code with the given weights.  That of the last byte is not given, but fills the code. -/
def ofWeights? (l : ByteCodeLimits) (isPaired : Bool) (weights : List Nat) : Option ByteCode := do
  let total := (weights.map share).foldl (· + ·) 0
  if total = 0 ∨ weights.any (l.maxWidth < ·) then none
  let maxWidth := Nat.log2 total + 1
  let rest := 1 <<< maxWidth - total
  let last := Nat.log2 rest + 1
  let all := weights ++ [last]
  let lightest := (all.filter (· = 1)).length
  if l.maxWidth < maxWidth ∨ share last ≠ rest ∨ lightest < 2 ∨ lightest % 2 = 1 then none
  let ofWeight (w : Nat) := (all.zipIdx.filter (·.1 = w)).flatMap fun (_, byte) =>
    List.replicate (share w) (byte.toUInt8, maxWidth + 1 - w)
  let entries := ((List.range maxWidth).flatMap fun w => ofWeight (w + 1)).toArray
  return ⟨maxWidth, max l.minLookedAt maxWidth, entries, isPaired⟩

/-! ## Weights -/

/-- Weights of four bits each, two to a byte. -/
def readPlainWeights (n : Nat) : Read (List Nat) := do
  let packed ← Read.bytes ((n + 1) / 2)
  return (packed.toList.flatMap fun b => [b.toNat / 16, b.toNat % 16]).take n

/-- Weights from two states in turn, until the bits are used up.  The state whose turn it is
comes first. -/
def weights (t : StateTable) : Nat → Nat → Nat → BackwardBits → Option (List Nat)
  | 0, _, _, _ => none
  | fuel + 1, state, other, b =>
    let (state', b) := (t.next state).run b
    if b.isOverrun then some [t.symbol state, t.symbol other]
    else (t.symbol state :: ·) <$> weights t fuel other state' b

/-- How many weights there can be, two of them at the very end. -/
def maxWeights : Nat := 255

/-- How a sequence of weights is obtained from the first two states and the bits that follow. -/
abbrev WeightReader := StateTable → Nat → Nat → BackwardBits → Option (List Nat)

/-- Weights behind the table of the states that they are read from. -/
def readPackedWeights (maxLog : Nat) (r : WeightReader) (size : Nat) : Read (List Nat) := do
  let content ← Read.bytes size
  let table : Read (StateTable × ByteArray) := do
    let t ← StateTable.readTable maxLog 256
    return (t, ← Read.bytes (← Read.remaining))
  let (t, rest) ← table.run' content
  let b ← BackwardBits.ofBytes? rest
  let (first, b) := t.start.run b
  let (second, b) := t.start.run b
  r t first second b

/-- Reads weights up to the end of the bits, which have to be enough for the first two. -/
def weightReader : WeightReader := fun t first second b =>
  if b.isOverrun then none else weights t (maxWeights - 1) first second b

def read (isPaired : Bool) : Read ByteCode := do
  let head := (← Read.byte).toNat
  let weights ←
    if head < 128 then readPackedWeights 6 weightReader head else readPlainWeights (head - 127)
  ofWeights? .standard isPaired weights

/-! ## Words -/

/-- The byte whose word the bits begin with, and how many bits that takes. -/
def first (c : ByteCode) (bits : Nat) : UInt8 × Nat :=
  c.entries[bits >>> (c.lookedAt - c.maxWidth)]?.getD (0, 0)

/-- The byte that follows the first one, and how many bits both of them take, if they have both
words in the bits. -/
def second? (c : ByteCode) (bits : Nat) : Option (UInt8 × Nat) :=
  let width := (c.first bits).2
  let (byte, more) := c.first ((bits <<< width) % (1 <<< c.lookedAt))
  if width + more ≤ c.lookedAt then some (byte, width + more) else none

end ByteCode

end DebugSymbols.Zstd
