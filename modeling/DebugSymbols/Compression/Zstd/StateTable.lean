import DebugSymbols.Bytes.Cursor
import DebugSymbols.Compression.Zstd.BackwardBits

/-!
Codes in which a state stands for a symbol, and for how to get to the next state: by a number of
bits that are added to a base.  A table of states is given by how many of them a symbol has.
-/

namespace DebugSymbols.Zstd

structure StateTable.Entry where
  symbol : Nat
  /-- How many bits lead to the next state. -/
  width : Nat
  /-- The least of the next states. -/
  base : Nat

structure StateTable where
  /-- The table has two to the power of this many states. -/
  log : Nat
  entries : Array StateTable.Entry

namespace StateTable

/-! ## Construction -/

/-- Tells the symbol of a single state. -/
def constant (symbol : Nat) : StateTable := ⟨0, #[⟨symbol, 0, 0⟩]⟩

/-- Symbols in their places, and the place that the next one goes to. -/
structure Spread where
  places : Array Nat
  next : Nat

/-- The place after the given one that is not above `high`. -/
def nextPlace (size high : Nat) : Nat → Nat → Nat
  | 0, place => place
  | fuel + 1, place =>
    let place := (place + size / 2 + size / 8 + 3) % size
    if high < place then nextPlace size high fuel place else place

def Spread.put (size high : Nat) (s : Spread) (symbol : Nat) : Spread :=
  ⟨s.places.setIfInBounds s.next symbol, nextPlace size high size s.next⟩

/-- The symbols of all states.  Symbols that are less than probable, with count minus one, have
one state at the end each; the others are spread over the rest. -/
def spread (size : Nat) (counts : List Int) : Array Nat :=
  let rare := (counts.zipIdx.filter (·.1 = -1)).map (·.2)
  let common := counts.zipIdx.flatMap fun (count, symbol) => List.replicate count.toNat symbol
  let places := rare.zipIdx.foldl
    (fun places (symbol, i) => places.setIfInBounds (size - 1 - i) symbol) (Array.replicate size 0)
  (common.foldl (Spread.put size (size - 1 - rare.length)) ⟨places, 0⟩).places

/-- The table in which symbols have as many states as stated. -/
def ofCounts (log : Nat) (counts : List Int) : StateTable :=
  let size := 1 <<< log
  let first := (counts.map fun count => if count = -1 then 1 else count.toNat).toArray
  let (entries, _) := (spread size counts).foldl (fun (entries, next) symbol =>
    let n := next[symbol]?.getD 1
    let width := log - Nat.log2 n
    (entries.push ⟨symbol, width, n <<< width - size⟩, next.setIfInBounds symbol (n + 1)))
    ((#[] : Array Entry), first)
  ⟨log, entries⟩

/-! ## Written form -/

/-- Bits of the input from its front on, with zeros behind its end. -/
structure ForwardBits where
  data : ByteArray
  position : Nat

def ForwardBits.peek (b : ForwardBits) (n : Nat) : Nat := bitsFrom b.data b.position n

def ForwardBits.skip (b : ForwardBits) (n : Nat) : ForwardBits :=
  { b with position := b.position + n }

/-- How many zeros follow a zero, in steps of up to three. -/
def zeros : Nat → ForwardBits → Nat × ForwardBits
  | 0, b => (0, b)
  | fuel + 1, b =>
    let n := b.peek 2
    if n = 3 then
      let (more, b) := zeros fuel (b.skip 2)
      (3 + more, b)
    else (n, b.skip 2)

/-- A count, which takes less bits the fewer states remain.  It is stored plus one. -/
def count (remaining : Nat) (b : ForwardBits) : Int × ForwardBits :=
  let width := Nat.log2 remaining + 1
  let threshold := 1 <<< (width - 1)
  let spare := 2 * threshold - 1 - remaining
  let low := b.peek (width - 1)
  if low < spare then ((low : Int) - 1, b.skip (width - 1))
  else
    let n := b.peek width
    (((if threshold ≤ n then n - spare else n) : Nat) - 1, b.skip width)

/-- Counts of symbols up to the given number, until no states remain.  Counts are in reverse. -/
def counts (maxSymbols : Nat) : Nat → Nat → List Int → ForwardBits →
    Option (List Int × ForwardBits)
  | 0, _, _, _ => none
  | fuel + 1, remaining, read, b =>
    if remaining ≤ 1 then some (read.reverse, b)
    else if maxSymbols ≤ read.length then none
    else
      let (n, b) := count remaining b
      let remaining := remaining - n.natAbs
      if n = 0 then
        let (more, b) := zeros (8 * b.data.size + 1) b
        counts maxSymbols fuel remaining (List.replicate more 0 ++ n :: read) b
      else counts maxSymbols fuel remaining (n :: read) b

/-- Reads a table of at most two to the power of `maxLog` states. -/
def readTable (maxLog maxSymbols : Nat) : Read StateTable := do
  let c ← get
  let b : ForwardBits := ⟨c.data.extract c.position c.data.size, 0⟩
  let log := b.peek 4 + 5
  if maxLog < log then failure
  let (counts, b) ← counts maxSymbols (maxSymbols + 1) (1 <<< log + 1) [] (b.skip 4)
  Read.skip ((b.position + 7) / 8)
  return ofCounts log counts

/-! ## Use -/

def start (t : StateTable) : StateM BackwardBits Nat := BackwardBits.read t.log

def entry (t : StateTable) (state : Nat) : Entry := t.entries[state]?.getD ⟨0, 0, 0⟩

def symbol (t : StateTable) (state : Nat) : Nat := (t.entry state).symbol

def next (t : StateTable) (state : Nat) : StateM BackwardBits Nat := do
  let e := t.entry state
  return e.base + (← BackwardBits.read e.width)

end StateTable

end DebugSymbols.Zstd
