import DebugSymbols.Compression.Zstd.Earlier.Version

/-!
Lengths that are too great for their codes.  In versions 0.4 and 0.5 they are stored one after
the other, in front of the codes.
-/

namespace DebugSymbols.Zstd

structure LongLengths where
  data : ByteArray
  position : Nat
  stop : Nat

namespace LongLengths

def byteAt (l : LongLengths) (position : Nat) : Nat := (l.data[position]?.getD 0).toNat

/-- A position behind the end is moved in front of it. -/
def goTo (l : LongLengths) (position : Nat) : LongLengths :=
  { l with position := if l.stop ≤ position then l.stop - 1 else position }

/-- A length at a position, of which there is an end.  It takes three bytes, or since version 0.5
two of them if it is small. -/
def long? (v : EarlierVersion) (l : LongLengths) (position : Nat) : Option (Nat × Nat) :=
  let low := l.byteAt position + 256 * l.byteAt (position + 1)
  let high := 65536 * l.byteAt (position + 2)
  match v with
  | .v4 => if position + 3 ≤ l.stop then some (low + high, position + 3) else none
  | _ =>
    if l.stop < position + 2 then none
    else if low % 2 = 1 ∧ position + 2 < l.stop then some ((low + high) / 2, position + 3)
    else some (low / 2, position + 2)

/-- The next length, of a code that stands for all lengths from `least` on: a byte to be added to
it, or a byte of ones and then the length.  If there is no byte, it stands for `least`. -/
def read (v : EarlierVersion) (least : Nat) (isThere : Bool) (l : LongLengths) :
    Nat × LongLengths :=
  let (first, position) :=
    if isThere then (l.byteAt l.position, l.position + 1) else (0, l.position)
  if first < 255 then (least + first, l.goTo position)
  else
    match l.long? v position with
    | some (length, position) => (length, l.goTo position)
    | none => (least, l.goTo position)

end LongLengths

end DebugSymbols.Zstd
