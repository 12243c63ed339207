/-!
What has been unpacked of a frame and can be referred to.  It is written to a buffer; if that is
full, it is filled from its start again, so that what was written before is there as long as
nothing has taken its place.
-/

namespace DebugSymbols.Zstd

structure Window where
  /-- What was written to the buffer before it was begun again. -/
  previous : ByteArray
  /-- What has been written to the buffer since then. -/
  current : ByteArray

namespace Window

def empty : Window := ⟨.empty, .empty⟩

/-- Begins the buffer again. -/
def restart (w : Window) : Window := ⟨w.current, .empty⟩

/-- The byte that lies some distance back. -/
def back (w : Window) (distance : Nat) : UInt8 :=
  if distance ≤ w.current.size then w.current[w.current.size - distance]?.getD 0
  else
    let place := w.previous.size + w.current.size - distance
    (if place < w.current.size then w.current[place]? else w.previous[place]?).getD 0

def append (w : Window) (bytes : ByteArray) : Window := { w with current := w.current ++ bytes }

/-- Appends bytes that lie some distance back, which may be among those just appended. -/
def copyBack (distance : Nat) : Nat → Window → Window
  | 0, w => w
  | n + 1, w =>
    let byte := w.back distance
    copyBack distance n { w with current := w.current.push byte }

end Window

/-! ## Filling -/

/-- A window that is filled with literals and with what it has itself. -/
structure Filling where
  window : Window
  /-- How many of the literals have been used. -/
  used : Nat

namespace Filling

/-- Appends some of the literals, and then bytes that lie some distance back, up to a size of the
buffer. -/
def add? (literals : ByteArray) (limit count distance length : Nat) (f : Filling) :
    Option Filling := do
  let ⟨window, before⟩ := f
  let used := before + count
  let size := window.current.size + count
  if literals.size < used ∨ limit < size + length then none
  else if distance = 0 ∨ window.previous.size + size < distance then none
  else return ⟨(window.append (literals.extract before used)).copyBack distance length, used⟩

/-- Appends the literals that are left. -/
def finish? (literals : ByteArray) (limit : Nat) (f : Filling) : Option Window :=
  let rest := literals.extract f.used literals.size
  if limit < f.window.current.size + rest.size then none else some (f.window.append rest)

end Filling

end DebugSymbols.Zstd
