/-!
Storage widths of the scalar types.  A width is looked up by its exact byte size; a size that
no width has leaves the choice of a fallback to the caller.
-/

namespace DebugSymbols

/-! ## Integers -/

inductive IntWidth where
  /-- The `int` of the target. -/
  | natural
  | w8
  | w16
  | w32
  | w64
  | w128
deriving DecidableEq, Repr

def IntWidth.size : IntWidth → UInt64
  | w8 => 1
  | w16 => 2
  | natural | w32 => 4
  | w64 => 8
  | w128 => 16

def IntWidth.ofSize? (size : UInt64) : Option IntWidth :=
  [w8, w16, w32, w64, w128].find? (·.size = size)

theorem IntWidth.size_of_ofSize? {size : UInt64} {w : IntWidth}
    (h : ofSize? size = some w) : w.size = size := by
  simpa using List.find?_some h

/-! ## Floating point -/

inductive FloatWidth where
  /-- The `float` of the target. -/
  | default
  | half
  | single
  | double
  /-- Extended precision, stored in ten, twelve or sixteen bytes. -/
  | long10
  | long12
  | long16
deriving DecidableEq, Repr

def FloatWidth.size : FloatWidth → UInt64
  | half => 2
  | default | single => 4
  | double => 8
  | long10 => 10
  | long12 => 12
  | long16 => 16

def FloatWidth.ofSize? (size : UInt64) : Option FloatWidth :=
  [half, single, double, long10, long12, long16].find? (·.size = size)

theorem FloatWidth.size_of_ofSize? {size : UInt64} {w : FloatWidth}
    (h : ofSize? size = some w) : w.size = size := by
  simpa using List.find?_some h

/-! ## Truth values -/

inductive BoolWidth where
  /-- Whatever the target uses. -/
  | default
  | w1
  | w2
  | w4
deriving DecidableEq, Repr

def BoolWidth.size : BoolWidth → UInt64
  | default | w1 => 1
  | w2 => 2
  | w4 => 4

def BoolWidth.ofSize? (size : UInt64) : Option BoolWidth :=
  [w1, w2, w4].find? (·.size = size)

theorem BoolWidth.size_of_ofSize? {size : UInt64} {w : BoolWidth}
    (h : ofSize? size = some w) : w.size = size := by
  simpa using List.find?_some h

end DebugSymbols
