import DebugSymbols.Compression.Zstd.StateTable
import DebugSymbols.Compression.Zstd.Window

/-!
The sequences of a block: each appends some literals, and then bytes from further back.  How
many of them, and from where, is told by three codes at once.
-/

namespace DebugSymbols.Zstd

/-! ## The codes -/

/-- A code for lengths or offsets, and how it is given. -/
structure CodeFormat where
  maxLog : Nat
  maxSymbols : Nat
  standardLog : Nat
  standardCounts : List Int

def literalFormat : CodeFormat where
  maxLog := 9
  maxSymbols := 36
  standardLog := 6
  standardCounts := [4, 3, 2, 2, 2, 2, 2, 2, 2, 2, 2, 2, 2, 1, 1, 1, 2, 2, 2, 2, 2, 2, 2, 2, 2, 3,
    2, 1, 1, 1, 1, 1, -1, -1, -1, -1]

def offsetFormat : CodeFormat where
  maxLog := 8
  maxSymbols := 32
  standardLog := 5
  standardCounts := [1, 1, 1, 1, 1, 1, 2, 2, 2, 1, 1, 1, 1, 1, 1, 1, 1, 1, 1, 1, 1, 1, 1, 1, -1, -1,
    -1, -1, -1]

def matchFormat : CodeFormat where
  maxLog := 9
  maxSymbols := 53
  standardLog := 6
  standardCounts := [1, 4, 3, 2, 2, 2, 2, 2, 2, 1, 1, 1, 1, 1, 1, 1, 1, 1, 1, 1, 1, 1, 1, 1, 1, 1,
    1, 1, 1, 1, 1, 1, 1, 1, 1, 1, 1, 1, 1, 1, 1, 1, 1, 1, 1, 1, -1, -1, -1, -1, -1, -1, -1]

/-- Reads a table in the given way: the standard one, a single symbol, a table of its own, or
the one of the block before. -/
def CodeFormat.readTable (f : CodeFormat) (known : Option StateTable) : Nat → Read StateTable
  | 0 => return .ofCounts f.standardLog f.standardCounts
  | 1 => do
    let symbol := (← Read.byte).toNat
    if symbol < f.maxSymbols then return .constant symbol else failure
  | 2 => StateTable.readTable f.maxLog f.maxSymbols
  | _ => known

/-- Bases and additional bits of the symbols that follow the plain ones. -/
def literalExtras : List (Nat × Nat) :=
  [(16, 1), (18, 1), (20, 1), (22, 1), (24, 2), (28, 2), (32, 3), (40, 3), (48, 4), (64, 6),
    (128, 7), (256, 8), (512, 9), (1024, 10), (2048, 11), (4096, 12), (8192, 13), (16384, 14),
    (32768, 15), (65536, 16)]

def matchExtras : List (Nat × Nat) :=
  [(35, 1), (37, 1), (39, 1), (41, 1), (43, 2), (47, 2), (51, 3), (59, 3), (67, 4), (83, 4),
    (99, 5), (131, 7), (259, 8), (515, 9), (1027, 10), (2051, 11), (4099, 12), (8195, 13),
    (16387, 14), (32771, 15), (65539, 16)]

/-- The base of a symbol, and how many more bits it takes. -/
def literalBase (symbol : Nat) : Nat × Nat :=
  if symbol < 16 then (symbol, 0) else (literalExtras[symbol - 16]?).getD (0, 0)

def matchBase (symbol : Nat) : Nat × Nat :=
  if symbol < 32 then (symbol + 3, 0) else (matchExtras[symbol - 32]?).getD (0, 0)

/-! ## Sequences -/

structure Sequence where
  literals : Nat
  /-- An offset plus three, or a reference to an earlier offset. -/
  offset : Nat
  length : Nat

structure Tables where
  literals : StateTable
  offsets : StateTable
  lengths : StateTable

/-- Sequences from the states of the three codes.  The states are not advanced after the last
one, and all bits have to be used up. -/
def sequencesFrom (t : Tables) : Nat → Nat → Nat → Nat → BackwardBits → Option (List Sequence)
  | 0, _, _, _, b => if b.isSpent then some [] else none
  | n + 1, literalState, offsetState, lengthState, b => do
    if b.isOverrun then none
    let offsetWidth := t.offsets.symbol offsetState
    let (offsetRest, b) := (BackwardBits.read offsetWidth).run b
    let (lengthBase, lengthWidth) := matchBase (t.lengths.symbol lengthState)
    let (lengthRest, b) := (BackwardBits.read lengthWidth).run b
    let (literalBase, literalWidth) := literalBase (t.literals.symbol literalState)
    let (literalRest, b) := (BackwardBits.read literalWidth).run b
    let s : Sequence := ⟨literalBase + literalRest, 1 <<< offsetWidth + offsetRest,
      lengthBase + lengthRest⟩
    if n = 0 then if b.isSpent then return [s] else none
    else
      let (literalState, b) := (t.literals.next literalState).run b
      let (lengthState, b) := (t.lengths.next lengthState).run b
      let (offsetState, b) := (t.offsets.next offsetState).run b
      return s :: (← sequencesFrom t n literalState offsetState lengthState b)

def decodeSequences (t : Tables) (n : Nat) (data : ByteArray) : Option (List Sequence) := do
  let b ← BackwardBits.ofBytes? data
  let (literalState, b) := t.literals.start.run b
  let (offsetState, b) := t.offsets.start.run b
  let (lengthState, b) := t.lengths.start.run b
  sequencesFrom t n literalState offsetState lengthState b

/-- The number of sequences, in one to three bytes. -/
def readCount : Read Nat := do
  let head := (← Read.byte).toNat
  if head < 128 then return head
  else if head < 255 then return (head - 128) * 256 + (← Read.number .little 1)
  else return (← Read.number .little 2) + 0x7f00

/-- The sequences of a block, and the tables that the next block may use. -/
def readSequences (known : Option Tables) : Read (List Sequence × Option Tables) := do
  let n ← readCount
  if n = 0 then
    if ← Read.atEnd then return ([], known) else failure
  else
    let modes := (← Read.byte).toNat
    if modes % 4 ≠ 0 then failure
    let literals ← literalFormat.readTable (known.map (·.literals)) (modes / 64)
    let offsets ← offsetFormat.readTable (known.map (·.offsets)) (modes / 16 % 4)
    let lengths ← matchFormat.readTable (known.map (·.lengths)) (modes / 4 % 4)
    let t : Tables := ⟨literals, offsets, lengths⟩
    let rest ← Read.bytes (← Read.remaining)
    return (← decodeSequences t n rest, some t)

/-! ## Carrying out -/

/-- The offsets used last, the latest first. -/
structure Recent where
  first : Nat
  second : Nat
  third : Nat

def Recent.initial : Recent := ⟨1, 4, 8⟩

/-- The offset that a sequence means.  A reference counts from the offset before the latest one
if the sequence has no literals. -/
def Recent.use (r : Recent) (s : Sequence) : Nat × Recent :=
  if 3 < s.offset then (s.offset - 3, ⟨s.offset - 3, r.first, r.second⟩)
  else
    match s.offset + (if s.literals = 0 then 1 else 0) with
    | 1 => (r.first, r)
    | 2 => (r.second, ⟨r.second, r.first, r.third⟩)
    | 3 => (r.third, ⟨r.third, r.first, r.second⟩)
    | _ => (r.first - 1, ⟨r.first - 1, r.first, r.second⟩)

/-- A block while it is unpacked. -/
structure Unpacking where
  filling : Filling
  recent : Recent

/-- Appends what a sequence says, up to a size of the buffer. -/
def Unpacking.add? (literals : ByteArray) (limit : Nat) (u : Unpacking) (s : Sequence) :
    Option Unpacking := do
  let ⟨filling, recent⟩ := u
  let (offset, recent) := recent.use s
  return ⟨← filling.add? literals limit s.literals offset s.length, recent⟩

/-- Appends what the sequences say, and then the literals that are left. -/
def carryOut? (literals : ByteArray) (limit : Nat) (sequences : List Sequence) (recent : Recent)
    (window : Window) : Option (Window × Recent) := do
  let ⟨filling, recent⟩ ←
    sequences.foldlM (Unpacking.add? literals limit) ⟨⟨window, 0⟩, recent⟩
  return (← filling.finish? literals limit, recent)

end DebugSymbols.Zstd
