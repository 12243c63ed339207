import DebugSymbols.Bytes.Order

/-!
Reading binary data from front to back.  A reader that finds too few bytes, or bytes that do
not have the form it asks for, fails without an answer.
-/

namespace DebugSymbols

/-- A position in binary data. -/
structure Cursor where
  data : ByteArray
  position : Nat

/-- A computation that reads on from a position. -/
abbrev Read := StateT Cursor Option

namespace Read

/-- Runs a reader from the given position, which may be the very end. -/
def runAt (r : Read α) (data : ByteArray) (position : Nat) : Option α :=
  if position ≤ data.size then (r.run ⟨data, position⟩).map (·.1) else none

def run' (r : Read α) (data : ByteArray) : Option α := r.runAt data 0

def position : Read Nat := return (← get).position

def remaining : Read Nat := do
  let c ← get
  return c.data.size - c.position

def atEnd : Read Bool := return (← remaining) == 0

def byte : Read UInt8 := do
  let c ← get
  match c.data[c.position]? with
  | some b =>
    set { c with position := c.position + 1 }
    return b
  | none => failure

/-- The next byte, which stays where it is. -/
def peekByte : Read UInt8 := do
  let c ← get
  match c.data[c.position]? with
  | some b => return b
  | none => failure

/-- The next `n` bytes. -/
def bytes (n : Nat) : Read ByteArray := do
  let c ← get
  if n ≤ c.data.size - c.position then
    set { c with position := c.position + n }
    return c.data.extract c.position (c.position + n)
  else failure

def skip (n : Nat) : Read Unit := do
  let _ ← bytes n

def number (order : ByteOrder) (width : Nat) : Read Nat :=
  return order.decode (← bytes width).toList

/-- The part of some data from an offset on.  A part of no bytes is anywhere, even behind the
end. -/
def part? (data : ByteArray) (offset size : Nat) : Option ByteArray :=
  if size = 0 then some .empty else (bytes size).runAt data offset

/-- How far it is to a zero byte, looking at `n` bytes at most. -/
def toZero (data : ByteArray) (position : Nat) : Nat → Option Nat
  | 0 => none
  | n + 1 =>
    if data[position]? = some 0 then some 0 else (· + 1) <$> toZero data (position + 1) n

/-- Bytes up to a zero byte, which is read as well. -/
def terminated : Read ByteArray := do
  let c ← get
  let n ← toZero c.data c.position (c.data.size - c.position)
  let content ← bytes n
  skip 1
  return content

/-- Collects answers until there is none.  Each of them takes a byte at least, so there are not
more than bytes. -/
def untilNone (r : Read (Option α)) : Read (List α) := do
  go ((← remaining) + 1)
where
  go : Nat → Read (List α)
    | 0 => failure
    | fuel + 1 => do
      match ← r with
      | some a => return a :: (← go fuel)
      | none => return []

/-- Collects a number of answers. -/
def times (r : Read α) : Nat → Read (List α)
  | 0 => return []
  | n + 1 => do
    let a ← r
    return a :: (← times r n)

end Read

end DebugSymbols
