import DebugSymbols.Compression.Zstd.Earlier.LongLengths
import DebugSymbols.Compression.Zstd.Earlier.Literals
import DebugSymbols.Compression.Zstd.Sequences

/-!
The sequences of a block in earlier versions.  States are advanced after the last sequence as
well, and what offsets refer to is known as they are read.
-/

namespace DebugSymbols.Zstd.EarlierVersion

/-- The states of the three codes. -/
structure States where
  literals : Nat
  offsets : Nat
  lengths : Nat

def startStates (t : Tables) : StateM BackwardBits States := do
  let literals ← t.literals.start
  let offsets ← t.offsets.start
  let lengths ← t.lengths.start
  return ⟨literals, offsets, lengths⟩

/-- A sequence whose offset is not a reference. -/
def resolved (literals offset length : Nat) : Sequence := ⟨literals, offset + 3, length⟩

/-! ## Versions 0.6 and 0.7 -/

def lateOffsetFormat : CodeFormat := { offsetFormat with maxSymbols := 29 }

/-- Reads a table in the given way: the standard one, a single symbol, the one of the block
before, or a table of its own. -/
def readLateTable (f : CodeFormat) (known : Option StateTable) : Nat → Read StateTable
  | 2 => known
  | 3 => do
    if (← Read.remaining) < minTableBytes then failure
    StateTable.readTable f.maxLog f.maxSymbols
  | way => f.readTable none way

/-- The offset that a number means, which is an offset plus three or a reference.  The latest two
are exchanged if the sequence has no literals. -/
def lateOffset (r : Recent) (number literals : Nat) : Nat × Recent :=
  if 3 < number then (number - 3, ⟨number - 3, r.first, r.second⟩)
  else
    match if literals = 0 ∧ number < 3 then 3 - number else number with
    | 1 => (r.first, r)
    | 2 => (r.second, ⟨r.second, r.first, r.third⟩)
    | _ => (r.third, ⟨r.third, r.first, r.second⟩)

/-- Sequences, and the offsets used last. -/
def lateSequences? (t : Tables) :
    Nat → States → Recent → BackwardBits → Option (List Sequence × Recent)
  | 0, _, r, _ => some ([], r)
  | n + 1, s, r, b => do
    if b.isOverrun then none
    let offsetWidth := t.offsets.symbol s.offsets
    let (offsetRest, b) := (BackwardBits.read offsetWidth).run b
    let (lengthBase, lengthWidth) := matchBase (t.lengths.symbol s.lengths)
    let (lengthRest, b) := (BackwardBits.read lengthWidth).run b
    let (literalBase, literalWidth) := literalBase (t.literals.symbol s.literals)
    let (literalRest, b) := (BackwardBits.read literalWidth).run b
    let literals := literalBase + literalRest
    let (offset, r) := lateOffset r (1 <<< offsetWidth + offsetRest) literals
    let (literalState, b) := (t.literals.next s.literals).run b
    let (lengthState, b) := (t.lengths.next s.lengths).run b
    let (offsetState, b) := (t.offsets.next s.offsets).run b
    let (rest, r) ← lateSequences? t n ⟨literalState, offsetState, lengthState⟩ r b
    return (resolved literals offset (lengthBase + lengthRest) :: rest, r)

/-- The sequences of a block, and what the next block may use of it.  Behind no sequences there
can be anything. -/
def readLateSequences (known : Option Tables) (r : Recent) :
    Read (List Sequence × Option Tables × Recent) := do
  if (← Read.peekByte) = 0 then return ([], known, r)
  let n ← readCount
  if (← Read.remaining) < 4 then failure
  let modes := (← Read.byte).toNat
  let literals ← readLateTable literalFormat (known.map (·.literals)) (modes / 64)
  let offsets ← readLateTable lateOffsetFormat (known.map (·.offsets)) (modes / 16 % 4)
  let lengths ← readLateTable matchFormat (known.map (·.lengths)) (modes / 4 % 4)
  let t : Tables := ⟨literals, offsets, lengths⟩
  if n = 0 then return ([], known.map fun _ => t, r)
  else
    let b ← BackwardBits.ofBytes? (← Read.bytes (← Read.remaining))
    let (s, b) := (startStates t).run b
    let (sequences, r) ← lateSequences? t n s r b
    return (sequences, some t, r)

/-! ## Versions 0.4 and 0.5 -/

/-- A code for lengths or offsets, which are the symbols themselves up to some width. -/
structure EarlyFormat where
  width : Nat
  maxLog : Nat
  /-- How many symbols there are if it is a single one. -/
  singles : Nat

def EarlyFormat.literals : EarlyFormat := ⟨6, 10, 256⟩
def EarlyFormat.offsets : EarlyFormat := ⟨5, 9, 32⟩
def EarlyFormat.lengths : EarlyFormat := ⟨7, 10, 256⟩

/-- The greatest symbol, which stands for all that are stored apart. -/
def EarlyFormat.greatest (f : EarlyFormat) : Nat := 1 <<< f.width - 1

/-- Symbols of equal width, one after the other. -/
def plainTable (width : Nat) : StateTable :=
  ⟨width, ((List.range (1 <<< width)).map fun symbol => ⟨symbol, width, 0⟩).toArray⟩

inductive EarlyTable where
  | plain
  | single
  | own

/-- How a table is given.  Version 0.5 has a way that is not of use. -/
def earlyTable? (v : EarlierVersion) (way : Nat) : Option EarlyTable :=
  if v = v4 then
    match way with
    | 1 => some .plain
    | 2 => some .single
    | _ => some .own
  else
    match way with
    | 0 => some .plain
    | 1 => some .single
    | 2 => none
    | _ => some .own

def readEarlyTable (v : EarlierVersion) (f : EarlyFormat) (way : Nat) : Read StateTable := do
  match ← v.earlyTable? way with
  | .plain => return plainTable f.width
  | .single =>
    if (← Read.remaining) < 2 then failure
    return .constant ((← Read.byte).toNat % f.singles)
  | .own =>
    if (← Read.remaining) < minTableBytes then failure
    StateTable.readTable f.maxLog (1 <<< f.width)

/-- The next states of the codes for literals and offsets, and the bits of an offset. -/
def readOffsetBits (v : EarlierVersion) (t : Tables) (s : States) (width : Nat) :
    StateM BackwardBits (Nat × Nat × Nat) := do
  match v with
  | v4 =>
    let literalState ← t.literals.next s.literals
    let offsetState ← t.offsets.next s.offsets
    return (literalState, offsetState, ← BackwardBits.read width)
  | _ =>
    let rest ← BackwardBits.read width
    let offsetState ← t.offsets.next s.offsets
    return (← t.literals.next s.literals, offsetState, rest)

/-- The greatest code of an offset that is not reserved. -/
def maxOffsetCode : Nat := 26

/-- Sequences behind one whose offset is the latest, and another one the latest but one.  A
reference is to the latter if there are no literals. -/
def earlySequences? (v : EarlierVersion) (t : Tables) :
    Nat → States → Nat → Nat → LongLengths → BackwardBits → Option (List Sequence)
  | 0, _, _, _, _, b => if v = v4 ∧ !b.isSpent then none else some []
  | n + 1, s, latest, former, l, b => do
    if b.isOverrun then none
    let literalCode := t.literals.symbol s.literals
    let (literals, l) := if literalCode = EarlyFormat.literals.greatest then
        l.read v literalCode (v = v5 || l.position < l.stop)
      else (literalCode, l)
    let code := t.offsets.symbol s.offsets
    let ((literalState, offsetState, rest), b) := (readOffsetBits v t s (code - 1)).run b
    let base := if code ≤ maxOffsetCode then 1 <<< (code - 1) else 1
    let referred := if literalCode = 0 then former else latest
    let offset := if code = 0 then referred else base + rest
    let former := if code ≠ 0 ∨ literals = 0 then latest else former
    let lengthCode := t.lengths.symbol s.lengths
    let (lengthState, b) := (t.lengths.next s.lengths).run b
    let (length, l) := if lengthCode = EarlyFormat.lengths.greatest then
        l.read v lengthCode (l.position < l.stop)
      else (lengthCode, l)
    let more ← earlySequences? v t n ⟨literalState, offsetState, lengthState⟩ offset former l b
    return resolved literals offset (length + v.minMatch) :: more

/-- The offset that is referred to before there is another one. -/
def firstOffset : EarlierVersion → Nat
  | v4 => 4
  | _ => 1

/-- The number of sequences, which is always of two bytes in version 0.4. -/
def readEarlyCount (v : EarlierVersion) : Read Nat := do
  if v = v4 then Read.number .little 2
  else
    let head := (← Read.byte).toNat
    if head < 128 then return head
    else return (head - 128) * 256 + (← Read.number .little 1)

/-- The sequences of a block.  Since version 0.5 there can be anything behind no sequences. -/
def readEarlySequences (v : EarlierVersion) : Read (List Sequence) := do
  if v = v5 ∧ (← Read.peekByte) = 0 then return []
  let n ← v.readEarlyCount
  let head := (← Read.byte).toNat
  let size ←
    if head / 2 % 2 = 1 then Read.number .big 2
    else (head % 2 * 256 + ·) <$> Read.number .little 1
  let start ← Read.position
  let long : LongLengths := ⟨(← get).data, start, start + size⟩
  Read.skip size
  if (← Read.remaining) < 3 then failure
  let literals ← v.readEarlyTable .literals (head / 64)
  let offsets ← v.readEarlyTable .offsets (head / 16 % 4)
  let lengths ← v.readEarlyTable .lengths (head / 4 % 4)
  let t : Tables := ⟨literals, offsets, lengths⟩
  if v = v5 ∧ n = 0 then return []
  else
    let b ← BackwardBits.ofBytes? (← Read.bytes (← Read.remaining))
    let (s, b) := (startStates t).run b
    v.earlySequences? t n s v.firstOffset v.firstOffset long b

end DebugSymbols.Zstd.EarlierVersion
