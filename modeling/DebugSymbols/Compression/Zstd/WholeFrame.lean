import DebugSymbols.Compression.Zstd.Block
import DebugSymbols.Compression.Zstd.Checksum
import DebugSymbols.Compression.Zstd.FrameHeader

/-!
Frames that are unpacked at once, which is done if all of the input is there, and room for all of
the content.  Blocks may be larger then than the window permits.
-/

namespace DebugSymbols.Zstd.WholeFrame

def checksumBytes : Nat := 4

/-- Where the last of some blocks ends, if that is not behind the end of the input. -/
def blocksEnd? (input : ByteArray) (stop : Nat) : Nat → Nat → Option Nat
  | 0, _ => none
  | fuel + 1, position => do
    if stop < position + BlockHeader.width then none
    let b ← BlockHeader.read.runAt input position
    let next := position + BlockHeader.width + b.stored
    if stop < next then none
    if b.isLast then some next else blocksEnd? input stop fuel next

/-- Where a frame ends whose blocks start at a position. -/
def end? (h : FrameHeader) (input : ByteArray) (stop position : Nat) : Option Nat := do
  let next ← blocksEnd? input stop (input.size + 1) position
  let next := next + (if h.hasChecksum then checksumBytes else 0)
  if stop < next then none else some next

/-- Unpacks blocks up to the last one, and tells where they end. -/
def unpackBlocks? (h : FrameHeader) (capacity : Nat) (input : ByteArray) :
    Nat → Nat → Memory → Window → Option (ByteArray × Nat)
  | 0, _, _, _ => none
  | fuel + 1, position, m, w => do
    let b ← BlockHeader.read.runAt input position
    let start := position + BlockHeader.width
    let next := start + b.stored
    let content := input.extract start next
    let room := capacity - w.current.size
    if b.kind ≠ .compressed ∧ room < b.size then none
    let (w, m) ← match b.kind with
      | .plain => some (w.append content, m)
      | .repeated => some (w.append (repeated (content[0]?.getD 0) b.size), m)
      | .compressed => unpackBlock? ⟨h.maxBlock, room, true⟩ m content w
    if b.isLast then some (w.current, next) else unpackBlocks? h capacity input fuel next m w

/-- The content of a frame whose blocks start at a position. -/
def content? (h : FrameHeader) (capacity : Nat) (input : ByteArray) (position : Nat) :
    Option ByteArray := do
  let (content, next) ← unpackBlocks? h capacity input (input.size + 1) position .initial .empty
  if h.size.any (· ≠ content.size) then none
  if h.hasChecksum then
    let stated ← (readField checksumBytes).runAt input next
    if stated ≠ (Hash.empty.add content).checksum then none
  return content

end DebugSymbols.Zstd.WholeFrame
