/-!
Bits that are read from the end of some bytes to their start.  The highest bit that is set in
the last byte only marks where they begin.
-/

namespace DebugSymbols.Zstd

/-- The number that `n` bits from a position on form, the first of them the lowest.  Behind the
last byte there are zeros. -/
def bitsFrom (data : ByteArray) (position n : Nat) : Nat :=
  let bytes := (List.range (n / 8 + 2)).foldr (fun k acc =>
    (data[position / 8 + k]?.getD 0).toNat + 256 * acc) 0
  (bytes >>> (position % 8)) % (1 <<< n)

structure BackwardBits where
  data : ByteArray
  /-- How many bits are left; negative if more were read than there are. -/
  left : Int

namespace BackwardBits

/-- How many bits there are, none of them if the last byte has no mark. -/
def ofBytes? (data : ByteArray) : Option BackwardBits := do
  let last ← data[data.size - 1]?
  if last = 0 then none else some ⟨data, 8 * (data.size - 1) + Nat.log2 last.toNat⟩

def isSpent (b : BackwardBits) : Bool := b.left = 0

def isOverrun (b : BackwardBits) : Bool := b.left < 0

/-- Bits are read in words of so many. -/
def wordBits : Nat := 64

/-- Where the next bits end.  Once all bits are read, the first word is read over again. -/
def readingEnd (b : BackwardBits) : Nat :=
  match b.left with
  | .ofNat (n + 1) => n + 1
  | .ofNat 0 => wordBits
  | .negSucc n => wordBits - (n + 1) % wordBits

/-- The number that the next `n` bits form, the first of them the highest.  In front of the first
byte there are zeros. -/
def peek (b : BackwardBits) (n : Nat) : Nat :=
  let stop := b.readingEnd
  if n ≤ stop then bitsFrom b.data (stop - n) n else bitsFrom b.data 0 stop <<< (n - stop)

def skip (b : BackwardBits) (n : Nat) : BackwardBits := { b with left := b.left - n }

/-- Reads the next `n` bits. -/
def read (n : Nat) : StateM BackwardBits Nat := fun b => (b.peek n, b.skip n)

end BackwardBits

end DebugSymbols.Zstd
