import DebugSymbols.Compression.Zstd.Block
import DebugSymbols.Compression.Zstd.FrameHeader

/-!
Frames of earlier versions of the format.  They have marks of their own, and their last block is
one that only tells so.
-/

namespace DebugSymbols.Zstd

/-- The versions 0.4 to 0.7.  Those before them are not supported. -/
inductive EarlierVersion where
  | v4
  | v5
  | v6
  | v7
deriving DecidableEq, Repr

namespace EarlierVersion

def ofMark? : List UInt8 → Option EarlierVersion
  | [0x24, 0xb5, 0x2f, 0xfd] => some v4
  | [0x25, 0xb5, 0x2f, 0xfd] => some v5
  | [0x26, 0xb5, 0x2f, 0xfd] => some v6
  | [0x27, 0xb5, 0x2f, 0xfd] => some v7
  | _ => none

/-- How many bytes the fields behind the mark take, by the first of them. -/
def fieldBytes (v : EarlierVersion) (descriptor : Nat) : Nat :=
  match v with
  | v4 | v5 => 1
  | v6 => 1 + [0, 1, 2, 8][descriptor / 64]?.getD 0
  | v7 => Zstd.fieldBytes descriptor

end EarlierVersion

structure EarlierHeader where
  version : EarlierVersion
  windowSize : Nat
  hasChecksum : Bool

namespace EarlierHeader

def maxWindow : Nat := 1 <<< 27

/-- The window of a descriptor with an exponent only.  The other bits are reserved. -/
def plainWindow? (leastLog reserved descriptor : Nat) : Option Nat :=
  if descriptor &&& reserved = 0 then some (1 <<< (descriptor % 16 + leastLog)) else none

def read (v : EarlierVersion) : Read EarlierHeader := do
  match v with
  | .v4 | .v5 => return ⟨v, ← plainWindow? 11 0xf0 (← Read.byte).toNat, false⟩
  | .v6 => return ⟨v, ← plainWindow? 12 0x20 (← Read.byte).toNat, false⟩
  | .v7 =>
    let f ← readHeaderFields
    let windowSize := (f.window.map FrameHeader.windowOf).getD (f.size.getD 0 % UInt32.size)
    if f.descriptor / 8 % 2 = 1 ∨ f.dictionary ≠ 0 ∨ maxWindow < windowSize then failure
    return ⟨v, max windowSize 1024, f.descriptor / 4 % 2 = 1⟩

/-- The greatest size of a block, of which the first two versions make no use. -/
def maxBlock (h : EarlierHeader) : Nat :=
  match h.version with
  | .v4 | .v5 => FrameHeader.maxBlockSize
  | .v6 | .v7 => min h.windowSize FrameHeader.maxBlockSize

/-- The size of the buffer that blocks are unpacked to. -/
def bufferSize (h : EarlierHeader) : Nat :=
  match h.version with
  | .v4 | .v5 => h.windowSize
  | .v6 | .v7 => h.windowSize + h.maxBlock + 16

end EarlierHeader

namespace BlockHeader

/-- What the end of a frame of an earlier version says about its content. -/
abbrev EarlierEnd := Nat

/-- Reads the header of a block, or the end of a frame with its checksum. -/
def readEarlier : Read (EarlierEnd ⊕ BlockHeader) := do
  let fields ← Read.number .big width
  let size := fields % 0x80000
  match fields >>> 22 with
  | 0 => return .inr ⟨.compressed, size, false⟩
  | 1 => return .inr ⟨.plain, size, false⟩
  | 2 => return .inr ⟨.repeated, size, false⟩
  | _ => return .inl (fields % 0x400000)

end BlockHeader

end DebugSymbols.Zstd
