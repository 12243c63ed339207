import DebugSymbols.Compression.Zstd.Literals
import DebugSymbols.Compression.Zstd.Sequences

/-!
The blocks of a frame: plain bytes, a single byte repeated, or literals and sequences.
-/

namespace DebugSymbols.Zstd

/-! ## Headers -/

inductive BlockKind where
  | plain
  | repeated
  | compressed
deriving DecidableEq, Repr

structure BlockHeader where
  kind : BlockKind
  /-- The size of the block, or how often its byte is repeated. -/
  size : Nat
  isLast : Bool

namespace BlockHeader

def width : Nat := 3

def read : Read BlockHeader := do
  let fields ← Read.number .little width
  let kind ← match fields / 2 % 4 with
    | 0 => pure .plain
    | 1 => pure .repeated
    | 2 => pure .compressed
    | _ => failure
  return ⟨kind, fields / 8, fields % 2 = 1⟩

/-- How many bytes follow the header. -/
def stored (h : BlockHeader) : Nat := if h.kind = .repeated then 1 else h.size

end BlockHeader

def repeated (byte : UInt8) (n : Nat) : ByteArray := (List.replicate n byte).toByteArray

/-! ## Compressed blocks -/

/-- What a block leaves to the next one of its frame. -/
structure Memory where
  code : Option ByteCode
  tables : Option Tables
  recent : Recent

def Memory.initial : Memory := ⟨none, none, .initial⟩

/-- What bounds the content of a block. -/
structure BlockRoom where
  /-- The greatest size of a block of the frame. -/
  maxBlock : Nat
  /-- How many bytes there is room for. -/
  capacity : Nat
  /-- Whether literals that are not used in their place can be put behind the block. -/
  keepsLiterals : Bool

namespace BlockRoom

/-- How many bytes a block has to leave free in front of literals, and behind them. -/
def margin : Nat := 32

/-- How many bytes a block may take.  Literals that are put behind it are in its way. -/
def limit (r : BlockRoom) (l : Literals) : Nat :=
  if r.keepsLiterals ∧ !l.inPlace ∧ r.maxBlock + l.bytes.size + 2 * margin < r.capacity then
    r.maxBlock + margin
  else r.capacity

end BlockRoom

/-- The least size of a compressed block. -/
def minCompressedBlock : Nat := 2

/-- Appends the content of a compressed block. -/
def unpackBlock? (r : BlockRoom) (m : Memory) (content : ByteArray) (w : Window) :
    Option (Window × Memory) := do
  if content.size < minCompressedBlock ∨ r.maxBlock < content.size then none
  let read : Read (Literals × List Sequence × Option Tables) := do
    let literals ← Literals.read (min r.maxBlock r.capacity) m.code
    let (sequences, tables) ← readSequences m.tables
    return (literals, sequences, tables)
  let (literals, sequences, tables) ← read.run' content
  if r.capacity = 0 ∧ !sequences.isEmpty then none
  let limit := w.current.size + r.limit literals
  let (w, recent) ← carryOut? literals.bytes limit sequences m.recent w
  return (w, ⟨literals.code, tables, recent⟩)

end DebugSymbols.Zstd
