import DebugSymbols.Compression.Zstd.Earlier.Version
import DebugSymbols.Compression.Zstd.Sequences

/-!
How earlier versions carry out sequences.  Bytes are appended in strides of eight, so that some
are written behind the end.  They count for nothing there, but they take the place of bytes that
were written before the buffer was begun again, and that sequences may still refer to.
-/

namespace DebugSymbols.Zstd

/-! ## Behind the end -/

namespace Window

/-- Writes bytes behind the end. -/
def spill (w : Window) (bytes : List UInt8) : Window :=
  let ⟨previous, current⟩ := w
  let (previous, _) := bytes.foldl (fun (previous, place) byte =>
    (if h : place < previous.size then previous.set place byte h else previous, place + 1))
    (previous, current.size)
  ⟨previous, current⟩

def byteAt (w : Window) (place : Nat) : UInt8 :=
  (if place < w.current.size then w.current[place]? else w.previous[place]?).getD 0

/-- The next bytes if what is some distance back were repeated forever. -/
def continued (w : Window) (distance n : Nat) : List UInt8 :=
  (List.range n).map fun k => w.byteAt (w.current.size - distance + k % distance)

end Window

namespace EarlierVersion

def stride : Nat := 8

/-- How many bytes are written of so many, at least one stride. -/
def strides (n : Nat) : Nat := max 1 ((n + stride - 1) / stride) * stride

/-! ## Literals -/

structure LooseLiterals where
  bytes : ByteArray
  /-- What is read behind them, a stride at most. -/
  tail : ByteArray

namespace LooseLiterals

def ofBytes (bytes : ByteArray) : LooseLiterals :=
  ⟨bytes, (List.replicate stride 0).toByteArray⟩

/-- The bytes from a position on, with zeros behind the tail. -/
def slice (l : LooseLiterals) (start n : Nat) : List UInt8 :=
  (List.range n).map fun k =>
    let place := start + k
    (if place < l.bytes.size then l.bytes[place]? else l.tail[place - l.bytes.size]?).getD 0

end LooseLiterals

/-! ## Sequences -/

/-- The least number of bytes that are appended from further back. -/
def minMatch : EarlierVersion → Nat
  | v4 | v5 => 4
  | v6 | v7 => 3

/-- How many bytes are written for a number of them, close to the end of the buffer no more than
needed. -/
def written (v : EarlierVersion) (limit size length : Nat) : Nat :=
  let next := size + stride
  if size + length + 2 * stride ≤ limit + v.minMatch then stride + strides (length - stride)
  else if next + stride < limit then max length (stride + strides (limit - stride - next))
  else max length stride

/-- Appends bytes that lie some distance back, all of them behind the start of the buffer. -/
def copyNear (v : EarlierVersion) (limit distance length : Nat) (w : Window) : Window :=
  let more := v.written limit w.current.size length - length
  let w := w.copyBack distance length
  w.spill (w.continued distance more)

/-- Appends bytes that lie some distance back.  Those from before the buffer was begun again are
taken as they are at first. -/
def copyFar (v : EarlierVersion) (limit distance length : Nat) (w : Window) : Window :=
  let place := w.previous.size + w.current.size - distance
  let far := min length (w.previous.size - place)
  let w := w.append ((List.range far).map fun k => w.byteAt (place + k)).toByteArray
  let rest := length - far
  if limit < w.current.size + stride ∨ rest < v.minMatch then w.copyBack distance rest
  else v.copyNear limit distance rest w

/-- Appends some of the literals, and then bytes that lie some distance back, up to a size of the
buffer.  The literals have to leave room for a stride. -/
def fill? (v : EarlierVersion) (literals : LooseLiterals) (limit : Nat) (f : Filling)
    (s : Sequence) : Option Filling := do
  let ⟨window, before⟩ := f
  let used := before + s.literals
  let distance := s.offset - 3
  let size := window.current.size + s.literals
  if literals.bytes.size < used ∨ limit < size + max stride s.length then none
  else if distance = 0 ∨ window.previous.size + size < distance then none
  else
    let window := window.append (literals.bytes.extract before used)
    let window := window.spill (literals.slice used (strides s.literals - s.literals))
    let window := if distance ≤ size then v.copyNear limit distance s.length window
      else v.copyFar limit distance s.length window
    return ⟨window, used⟩

/-- Appends what sequences say, and then the literals that are left. -/
def carryOut? (v : EarlierVersion) (literals : LooseLiterals) (limit : Nat)
    (sequences : List Sequence) (window : Window) : Option Window := do
  let f ← sequences.foldlM (v.fill? literals limit) ⟨window, 0⟩
  f.finish? literals.bytes limit

end EarlierVersion

end DebugSymbols.Zstd
