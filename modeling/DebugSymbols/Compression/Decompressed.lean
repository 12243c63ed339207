/-!
What is in a compressed stream: bytes, and perhaps a fault behind some of them.  A stream is
unpacked only as far as it is asked for, so a fault matters to those that ask for enough.
-/

namespace DebugSymbols

/-- What can be wrong with a stream at some place. -/
inductive StreamFault where
  /-- The stream ends too early. -/
  | truncated
  | damaged
deriving DecidableEq, Repr

structure Decompressed where
  output : ByteArray
  /-- The least number of bytes that cannot be had. -/
  unavailable : Option Nat

namespace Decompressed

/-- The first bytes of the stream, or as many as there are. -/
def take? (d : Decompressed) (n : Nat) : Option ByteArray :=
  if d.unavailable.any (· ≤ n) then none else some (d.output.extract 0 n)

end Decompressed

/-- Appends bytes that lie some distance back, which may be among those just appended.  In front
of the first byte there are zeros. -/
def copyBack (distance : Nat) : Nat → ByteArray → ByteArray
  | 0, output => output
  | n + 1, output =>
    let byte := if distance ≤ output.size then output[output.size - distance]?.getD 0 else 0
    copyBack distance n (output.push byte)

end DebugSymbols
