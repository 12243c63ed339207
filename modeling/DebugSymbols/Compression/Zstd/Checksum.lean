/-!
The checksum of a frame: a hash of 64 bits, of four lanes that take in eight bytes each in turn.
-/

namespace DebugSymbols.Zstd

def prime1 : UInt64 := 0x9e3779b185ebca87
def prime2 : UInt64 := 0xc2b2ae3d27d4eb4f
def prime3 : UInt64 := 0x165667b19e3779f9
def prime4 : UInt64 := 0x85ebca77c2b2ae63
def prime5 : UInt64 := 0x27d4eb2f165667c5

def rotate (x : UInt64) (n : UInt64) : UInt64 := (x <<< n) ||| (x >>> (64 - n))

/-- The number that the first bytes stand for, the lowest first. -/
def word : List UInt8 → UInt64
  | [] => 0
  | b :: rest => b.toUInt64 ||| (word rest <<< 8)

def mixIn (lane input : UInt64) : UInt64 := rotate (lane + input * prime2) 31 * prime1

def merge (hash lane : UInt64) : UInt64 := (hash ^^^ mixIn 0 lane) * prime1 + prime4

structure Lanes where
  a : UInt64
  b : UInt64
  c : UInt64
  d : UInt64

def Lanes.initial : Lanes := ⟨prime1 + prime2, prime2, 0, 0 - prime1⟩

def Lanes.combine (l : Lanes) : UInt64 :=
  let hash := rotate l.a 1 + rotate l.b 7 + rotate l.c 12 + rotate l.d 18
  merge (merge (merge (merge hash l.a) l.b) l.c) l.d

/-- Takes in 32 bytes at a time, and leaves those at the end. -/
def stripes : Nat → Lanes → List UInt8 → Lanes × List UInt8
  | 0, l, bytes => (l, bytes)
  | n + 1, l, bytes =>
    let next (k : Nat) := word ((bytes.drop k).take 8)
    let l : Lanes :=
      ⟨mixIn l.a (next 0), mixIn l.b (next 8), mixIn l.c (next 16), mixIn l.d (next 24)⟩
    stripes n l (bytes.drop 32)

/-- Takes in less than 32 bytes. -/
def tail : Nat → UInt64 → List UInt8 → UInt64
  | 0, hash, _ => hash
  | _, hash, [] => hash
  | n + 1, hash, bytes =>
    if 8 ≤ bytes.length then
      let hash := rotate (hash ^^^ mixIn 0 (word (bytes.take 8))) 27 * prime1 + prime4
      tail n hash (bytes.drop 8)
    else if 4 ≤ bytes.length then
      let hash := rotate (hash ^^^ (word (bytes.take 4) * prime1)) 23 * prime2 + prime3
      tail n hash (bytes.drop 4)
    else
      let hash := rotate (hash ^^^ (word (bytes.take 1) * prime5)) 11 * prime1
      tail n hash (bytes.drop 1)

def finish (hash : UInt64) : UInt64 :=
  let hash := (hash ^^^ (hash >>> 33)) * prime2
  let hash := (hash ^^^ (hash >>> 29)) * prime3
  hash ^^^ (hash >>> 32)

/-- A hash that takes in bytes as they come. -/
structure Hash where
  lanes : Lanes
  /-- Bytes that have not been taken in yet, less than 32. -/
  held : List UInt8
  size : Nat

namespace Hash

def empty : Hash := ⟨.initial, [], 0⟩

def add (h : Hash) (bytes : ByteArray) : Hash :=
  let size := h.held.length + bytes.size
  let (lanes, held) := stripes (size / 32) h.lanes (h.held ++ bytes.toList)
  ⟨lanes, held, h.size + bytes.size⟩

def value (h : Hash) : UInt64 :=
  let hash := if h.size < 32 then prime5 else h.lanes.combine
  finish (tail 32 (hash + h.size.toUInt64) h.held)

/-- The low half, which is what frames hold. -/
def checksum (h : Hash) : Nat := h.value.toNat % UInt32.size

end Hash

end DebugSymbols.Zstd
