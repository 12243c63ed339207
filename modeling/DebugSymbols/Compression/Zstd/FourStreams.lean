import DebugSymbols.Compression.Zstd.ByteStream

/-!
Bytes in four streams, which are one behind the other, the lengths of the first three in front.
All but the last stream hold the same number of bytes.

Where the streams are long enough, they are decoded side by side for most of their length, five
words of each at a time.  Then they need not end with their last bytes: bits that a stream lacks
are taken from what is in front of it.
-/

namespace DebugSymbols.Zstd

/-- One of several streams that are decoded side by side. -/
structure Lane where
  /-- Where the stream begins. -/
  start : Nat
  /-- Where the word of eight bytes begins that bits are taken from. -/
  loaded : Nat
  /-- How many bytes the stream holds. -/
  size : Nat
  stream : ByteStream

namespace Lane

def wordBytes : Nat := 8

/-- A stream of some length.  If its last byte has no mark, then all of its bits count. -/
def ofPart (data : ByteArray) (start length size : Nat) : Lane :=
  let stop := start + length
  let last := (data[stop - 1]?.getD 0).toNat
  let unused := if last = 0 then 0 else 8 - Nat.log2 last
  ⟨start, stop - wordBytes, size, ⟨⟨data, (8 * stop - unused : Nat)⟩, .empty⟩⟩

def missing (l : Lane) : Nat := l.size - l.stream.output.size

/-- How many words are decoded at a time. -/
def wordsAtOnce : Nat := 5

/-- Decodes some words, and then loads bits again. -/
def advance (c : ByteCode) (l : Lane) : Lane :=
  let step := if c.isPaired then ByteStream.pair c else ByteStream.single c
  let stream := step (step (step (step (step l.stream))))
  { l with stream, loaded := (stream.bits.left.toNat + 7) / 8 - wordBytes }

/-- The rest of the stream.  It is damaged if too much was read in front of it already. -/
def finish? (c : ByteCode) (l : Lane) : Option ByteArray :=
  if l.loaded + wordBytes < l.start then none
  else some (l.stream.decode c l.missing).output

end Lane

structure FourStreams where
  first : Lane
  second : Lane
  third : Lane
  fourth : Lane

namespace FourStreams

def advance (c : ByteCode) (s : FourStreams) : FourStreams :=
  ⟨s.first.advance c, s.second.advance c, s.third.advance c, s.fourth.advance c⟩

/-- How many times all streams can be advanced for sure.  Each time takes up to seven bytes of
any stream. -/
def safeSteps (c : ByteCode) (s : FourStreams) : Nat :=
  let byInput := s.first.loaded / 7
  if c.isPaired then
    [s.first, s.second, s.third, s.fourth].foldl (fun n l =>
      min n (l.missing / (2 * Lane.wordsAtOnce))) byInput
  else min byInput (s.fourth.missing / Lane.wordsAtOnce)

/-- Whether no stream has got in front of the one before it. -/
def isOrdered (s : FourStreams) : Bool :=
  s.first.loaded ≤ s.second.loaded ∧ s.second.loaded ≤ s.third.loaded ∧
    s.third.loaded ≤ s.fourth.loaded

/-- Advances all streams until the last one holds so many bytes. -/
def advanceTo (c : ByteCode) (goal : Nat) : Nat → FourStreams → FourStreams
  | 0, s => s
  | n + 1, s =>
    if goal ≤ s.fourth.stream.output.size then s else advanceTo c goal n (s.advance c)

/-- Advances all streams as far as that is safe. -/
def advanceAll (c : ByteCode) : Nat → FourStreams → FourStreams
  | 0, s => s
  | fuel + 1, s =>
    let steps := s.safeSteps c
    if steps = 0 ∨ !s.isOrdered then s
    else
      let goal := s.fourth.stream.output.size + Lane.wordsAtOnce * steps
      advanceAll c fuel (advanceTo c goal steps s)

/-- All bytes, where each stream may go on in front of its start. -/
def decodeJointly? (c : ByteCode) (size : Nat) (s : FourStreams) : Option ByteArray := do
  let s := advanceAll c size s
  let first ← s.first.finish? c
  let second ← s.second.finish? c
  let third ← s.third.finish? c
  let fourth ← s.fourth.finish? c
  return first ++ second ++ third ++ fourth

/-- The least number of bytes in four streams. -/
def minSize : Nat := 6

/-- The lengths of the first three streams, of two bytes each. -/
def headerBytes : Nat := 6

/-- Where the streams begin, the last of which goes on to the end. -/
structure Starts where
  first : Nat
  second : Nat
  third : Nat
  fourth : Nat

def starts? (data : ByteArray) : Option Starts := do
  let length (k : Nat) := bitsFrom data (16 * k) 16
  let second := headerBytes + length 0
  let third := second + length 1
  let fourth := third + length 2
  if data.size < headerBytes + 4 ∨ data.size < fourth then none
  return ⟨headerBytes, second, third, fourth⟩

/-- How many bytes each but the last of four streams holds. -/
def partSize (size : Nat) : Nat := (size + 3) / 4

/-- Decodes a number of bytes from streams of which each ends with its last byte. -/
def decodeEach? (c : ByteCode) (size : Nat) (s : Starts) (data : ByteArray) :
    Option ByteArray := do
  let part := partSize size
  let first ← ByteStream.decodeAll? c part (data.extract s.first s.second)
  let second ← ByteStream.decodeAll? c part (data.extract s.second s.third)
  let third ← ByteStream.decodeAll? c part (data.extract s.third s.fourth)
  let fourth ← ByteStream.decodeAll? c (size - 3 * part) (data.extract s.fourth data.size)
  return first ++ second ++ third ++ fourth

/-- Decodes a number of bytes from four streams. -/
def decode? (c : ByteCode) (size : Nat) (data : ByteArray) : Option ByteArray := do
  let s ← starts? data
  let part := partSize size
  let rest := size - 3 * part
  let lengths := [s.second - s.first, s.third - s.second, s.fourth - s.third, data.size - s.fourth]
  if size < minSize then none
  else if c.lookedAt = 11 ∧ 0 < rest ∧ lengths.all (Lane.wordBytes ≤ ·) then
    decodeJointly? c size ⟨.ofPart data s.first (s.second - s.first) part,
      .ofPart data s.second (s.third - s.second) part,
      .ofPart data s.third (s.fourth - s.third) part,
      .ofPart data s.fourth (data.size - s.fourth) rest⟩
  else decodeEach? c size s data

end FourStreams

end DebugSymbols.Zstd
