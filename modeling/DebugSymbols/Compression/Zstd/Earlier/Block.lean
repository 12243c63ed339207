import DebugSymbols.Compression.Zstd.Block
import DebugSymbols.Compression.Zstd.Earlier.Sequences

/-!
Compressed blocks of earlier versions.  Only in version 0.7 does a block make use of those before
it, other than of what they are unpacked to.
-/

namespace DebugSymbols.Zstd.EarlierVersion

/-- The least size of a compressed block. -/
def minBlock : EarlierVersion → Nat
  | v4 => 11
  | _ => 3

/-- The literals and sequences of a block, and what it leaves to the next one. -/
def readBlock (v : EarlierVersion) (m : Memory) :
    Read (LooseLiterals × List Sequence × Memory) := do
  let (literals, code) ← v.readLiterals FrameHeader.maxBlockSize m.code
  match v with
  | v4 | v5 => return (literals, ← v.readEarlySequences, m)
  | v6 => return (literals, (← readLateSequences none ⟨1, 1, 1⟩).1, m)
  | v7 =>
    let (sequences, tables, recent) ← readLateSequences m.tables m.recent
    return (literals, sequences, ⟨code, tables, recent⟩)

/-- Appends the content of a block, for which there is so much room. -/
def unpackBlock? (v : EarlierVersion) (capacity : Nat) (m : Memory) (content : ByteArray)
    (w : Window) : Option (Window × Memory) := do
  if content.size < v.minBlock ∨ FrameHeader.maxBlockSize ≤ content.size then none
  let (literals, sequences, next) ← (v.readBlock m).run' content
  return (← v.carryOut? literals (w.current.size + capacity) sequences w, next)

end DebugSymbols.Zstd.EarlierVersion
