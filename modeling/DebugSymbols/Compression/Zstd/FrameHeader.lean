import DebugSymbols.Bytes.Cursor

/-!
The headers of frames: marks that tell what follows, and what a frame says about its content.
-/

namespace DebugSymbols.Zstd

/-! ## Marks -/

def markBytes : Nat := 4

/-- The mark of a frame. -/
def frameMark : List UInt8 := [0x28, 0xb5, 0x2f, 0xfd]

/-- Whether bytes, as far as there are any, are the mark of a frame. -/
def looksLikeFrame (start : List UInt8) : Bool := start = frameMark.take start.length

/-- Whether bytes, as far as there are any, are the mark of a frame to be skipped. -/
def looksSkippable (start : List UInt8) : Bool :=
  match start with
  | [] => true
  | first :: rest => first / 16 = 5 && rest = [0x2a, 0x4d, 0x18].take rest.length

/-! ## Fields -/

/-- The fields of a header, as many as its first byte says. -/
structure HeaderFields where
  descriptor : Nat
  window : Option Nat
  dictionary : Nat
  size : Option Nat

/-- A number of so many bytes. -/
def readField (width : Nat) : Read Nat := Read.number .little width

def readHeaderFields : Read HeaderFields := do
  let descriptor := (← Read.byte).toNat
  let isSingle := descriptor / 32 % 2 = 1
  let window ← if isSingle then pure none else some <$> readField 1
  let dictionary ← readField ([0, 1, 2, 4][descriptor % 4]?.getD 0)
  let size ←
    match descriptor / 64 with
    | 0 => if isSingle then some <$> readField 1 else pure none
    | 1 => (fun n => some (n + 256)) <$> readField 2
    | 2 => some <$> readField 4
    | _ => some <$> readField 8
  return ⟨descriptor, window, dictionary, size⟩

/-- How many bytes the fields take, by the first of them. -/
def fieldBytes (descriptor : Nat) : Nat :=
  let isSingle := descriptor / 32 % 2 = 1
  let size := if descriptor / 64 = 0 then (if isSingle then 1 else 0) else 1 <<< (descriptor / 64)
  1 + (if isSingle then 0 else 1) + [0, 1, 2, 4][descriptor % 4]?.getD 0 + size

/-! ## Meaning -/

structure FrameHeader where
  windowSize : Nat
  /-- The size of the content, if it is stated. -/
  size : Option Nat
  hasChecksum : Bool

namespace FrameHeader

/-- The size of a window, from an exponent and eighths. -/
def windowOf (descriptor : Nat) : Nat :=
  let base := 1 <<< (10 + descriptor / 8)
  base + base / 8 * (descriptor % 8)

/-- The greatest exponent of a window. -/
def maxWindowLog : Nat := 31

/-- What the fields mean, unless they ask for something that is not supported.  A frame without
a window is its own window, and the greatest size stands for none. -/
def ofFields? (f : HeaderFields) : Option FrameHeader :=
  let size := f.size.filter (· ≠ UInt64.size - 1)
  let windowSize := (f.window.map windowOf).getD (f.size.getD 0)
  let isLarge := f.window.any fun w => maxWindowLog < 10 + w / 8
  if f.descriptor / 8 % 2 = 1 ∨ f.dictionary ≠ 0 ∨ isLarge then none
  else some ⟨windowSize, size, f.descriptor / 4 % 2 = 1⟩

/-- The greatest size of a block in any frame. -/
def maxBlockSize : Nat := 131072

/-- The greatest size of a block in the frame. -/
def maxBlock (h : FrameHeader) : Nat := min h.windowSize maxBlockSize

end FrameHeader

end DebugSymbols.Zstd
