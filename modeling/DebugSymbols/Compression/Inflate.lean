import DebugSymbols.Compression.Decompressed

/-!
The deflate format: blocks of literal bytes and of references to earlier bytes, most of them in
prefix codes that are given by the lengths of their words.
-/

namespace DebugSymbols

/-! ## Prefix codes -/

/-- A code in which words of one length are consecutive numbers, and a longer word is greater
than a shorter one extended by zeros. -/
structure PrefixCode where
  /-- How many words there are of each length, from one on. -/
  counts : List Nat
  /-- The symbols in the order of their words. -/
  symbols : Array Nat

namespace PrefixCode

def maxLength : Nat := 15

/-- The code whose words have the given lengths, zero for a symbol without one.  All strings of
bits have to begin with a word; a code without words, or with a single one of one bit, may be
excepted from that. -/
def ofLengths? (allowSingle : Bool) (lengths : List Nat) : Option PrefixCode :=
  let sizes := (List.range maxLength).map (· + 1)
  let ofSize (n : Nat) := (lengths.zipIdx.filter (·.1 = n)).map (·.2)
  let counts := sizes.map fun n => (ofSize n).length
  let share := (sizes.zip counts).foldl (fun acc (n, count) => acc + count <<< (maxLength - n)) 0
  let isSingle := decide (counts.head? ∈ [some 0, some 1]) && (counts.drop 1).all (· = 0)
  if share = 1 <<< maxLength || allowSingle && isSingle then
    some ⟨counts, (sizes.flatMap ofSize).toArray⟩
  else none

end PrefixCode

namespace Inflate

/-! ## The state of unpacking -/

structure State where
  input : ByteArray
  /-- The position in the input, in bits. -/
  position : Nat
  output : ByteArray
  /-- How much there was of the output when the last portion of the input was begun. -/
  portionStart : Nat

/-- The input is taken in portions of so many bytes. -/
def portion : Nat := 32768

/-- A fault keeps what has been unpacked so far. -/
abbrev Run := ExceptT StreamFault (StateM State)

/-- The next bit, the low bits of a byte first. -/
def bit : Run Nat := do
  let s ← get
  match s.input[s.position / 8]? with
  | some b =>
    let start := if s.position % (8 * portion) = 0 then s.output.size else s.portionStart
    set { s with position := s.position + 1, portionStart := start }
    return (b.toNat >>> (s.position % 8)) % 2
  | none => throw .truncated

/-- A number whose low bits come first. -/
def bits : Nat → Run Nat
  | 0 => return 0
  | n + 1 => do
    let low ← bit
    return low + 2 * (← bits n)

def align : Run Unit := modify fun s => { s with position := (s.position + 7) / 8 * 8 }

def put (b : UInt8) : Run Unit := modify fun s => { s with output := s.output.push b }

/-! ## Symbols -/

/-- Reads a word bit by bit.  Of its length so far, `first` is the least word, and `before` is
the number of shorter ones.  Bits that no word begins with are damaged. -/
def symbolFrom (symbols : Array Nat) : List Nat → Nat → Nat → Nat → Run Nat
  | [], _, _, _ => throw .damaged
  | count :: longer, word, first, before => do
    let word := word + (← bit)
    if word < first + count then
      match symbols[before + (word - first)]? with
      | some s => return s
      | none => throw .damaged
    else if longer.all (· = 0) then throw .damaged
    else symbolFrom symbols longer (2 * word) (2 * (first + count)) (before + count)

def symbol (code : PrefixCode) : Run Nat := symbolFrom code.symbols code.counts 0 0 0

/-- The least length or distance of a symbol, and how many more bits it takes. -/
def extended (bases extras : List Nat) (n : Nat) : Run Nat := do
  match bases[n]?, extras[n]? with
  | some base, some extra => return base + (← bits extra)
  | _, _ => throw .damaged

def lengthOf : Nat → Run Nat :=
  extended
    [3, 4, 5, 6, 7, 8, 9, 10, 11, 13, 15, 17, 19, 23, 27, 31, 35, 43, 51, 59, 67, 83, 99, 115,
      131, 163, 195, 227, 258]
    [0, 0, 0, 0, 0, 0, 0, 0, 1, 1, 1, 1, 2, 2, 2, 2, 3, 3, 3, 3, 4, 4, 4, 4, 5, 5, 5, 5, 0]

def distanceOf : Nat → Run Nat :=
  extended
    [1, 2, 3, 4, 5, 7, 9, 13, 17, 25, 33, 49, 65, 97, 129, 193, 257, 385, 513, 769, 1025, 1537,
      2049, 3073, 4097, 6145, 8193, 12289, 16385, 24577]
    [0, 0, 0, 0, 1, 1, 2, 2, 3, 3, 4, 4, 5, 5, 6, 6, 7, 7, 8, 8, 9, 9, 10, 10, 11, 11, 12, 12,
      13, 13]

/-! ## Blocks -/

/-- Literals and references up to the end of a block.  Each of them takes a bit at least. -/
def contents (literals distances : PrefixCode) : Nat → Run Unit
  | 0 => throw .truncated
  | fuel + 1 => do
    let n ← symbol literals
    if n = 256 then return
    else if n < 256 then put n.toUInt8
    else
      let length ← lengthOf (n - 257)
      let distance ← distanceOf (← symbol distances)
      modify fun s => { s with output := copyBack distance length s.output }
    contents literals distances fuel

/-- Copies bytes that are not compressed. -/
def stored : Nat → Run Unit
  | 0 => return
  | n + 1 => do
    put (← bits 8).toUInt8
    stored n

def storedBlock : Run Unit := do
  align
  let length ← bits 16
  let complement ← bits 16
  if length + complement ≠ 0xffff then throw .damaged
  stored length

/-- The code that a list of lengths gives. -/
def code (allowSingle : Bool) (lengths : List Nat) : Run PrefixCode :=
  match PrefixCode.ofLengths? allowSingle lengths with
  | some code => return code
  | none => throw .damaged

def fixedLiterals : List Nat :=
  List.replicate 144 8 ++ List.replicate 112 9 ++ List.replicate 24 7 ++ List.replicate 8 8

def fixedDistances : List Nat := List.replicate 32 5

/-- The order in which the lengths of the words for lengths are stored. -/
def lengthOrder : List Nat :=
  [16, 17, 18, 0, 8, 7, 9, 6, 10, 5, 11, 4, 12, 3, 13, 2, 14, 1, 15]

/-- Reads lengths, the last one first, until there are as many as asked for.  Each symbol stands
for one length, or for a repetition. -/
def lengths (lengthCode : PrefixCode) (total : Nat) : Nat → List Nat → Run (List Nat)
  | 0, _ => throw .damaged
  | fuel + 1, read => do
    if read.length = total then return read.reverse
    else if total < read.length then throw .damaged
    else
      let n ← symbol lengthCode
      if n < 16 then lengths lengthCode total fuel (n :: read)
      else if n = 16 then
        match read with
        | last :: _ =>
          lengths lengthCode total fuel (List.replicate (3 + (← bits 2)) last ++ read)
        | [] => throw .damaged
      else if n = 17 then
        lengths lengthCode total fuel (List.replicate (3 + (← bits 3)) 0 ++ read)
      else lengths lengthCode total fuel (List.replicate (11 + (← bits 7)) 0 ++ read)

/-- A number of lengths of three bits each. -/
def shortLengths : Nat → Run (List Nat)
  | 0 => return []
  | n + 1 => do
    let length ← bits 3
    return length :: (← shortLengths n)

/-- The codes that a block brings along. -/
def ownCodes : Run (PrefixCode × PrefixCode) := do
  let literalCount := 257 + (← bits 5)
  let distanceCount := 1 + (← bits 5)
  let shortCount := 4 + (← bits 4)
  if 286 < literalCount ∨ 30 < distanceCount then throw .damaged
  let given := lengthOrder.zip (← shortLengths shortCount)
  let lengthCode ← code false ((List.range 19).map fun n => (given.lookup n).getD 0)
  let total := literalCount + distanceCount
  let all ← lengths lengthCode total (total + 1) []
  let distances ← code true (all.drop literalCount)
  let literals ← code true (all.take literalCount)
  return (literals, distances)

/-- Reads a block and tells whether it is the last one. -/
def block (fuel : Nat) : Run Bool := do
  let last ← bit
  match ← bits 2 with
  | 0 => storedBlock
  | 1 => contents (← code true fixedLiterals) (← code true fixedDistances) fuel
  | 2 =>
    let (literals, distances) ← ownCodes
    contents literals distances fuel
  | _ => throw .damaged
  return last = 1

def blocks (bitCount : Nat) : Nat → Run Unit
  | 0 => throw .truncated
  | fuel + 1 => do
    if ← block (bitCount + 1) then return
    blocks bitCount fuel

/-- All blocks. -/
def stream : Run Unit := do
  let bitCount := 8 * (← get).input.size
  blocks bitCount (bitCount + 1)

end Inflate

end DebugSymbols
