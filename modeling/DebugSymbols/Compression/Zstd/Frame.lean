import DebugSymbols.Compression.Zstd.Earlier.Block
import DebugSymbols.Compression.Zstd.WholeFrame

/-!
Frames that are unpacked part by part, to a buffer of limited size.
-/

namespace DebugSymbols.Zstd

/-! ## Forms -/

inductive FrameForm where
  | present (h : FrameHeader)
  | earlier (h : EarlierHeader)

/-- Room for input that is held back until all of a part is there, and for the content. -/
structure Buffers where
  input : Nat
  content : Nat
deriving DecidableEq, Repr

namespace FrameForm

def isPresent : FrameForm → Bool
  | present _ => true
  | earlier _ => false

def hasChecksum : FrameForm → Bool
  | present h => h.hasChecksum
  | earlier h => h.hasChecksum

/-- The least window that buffers are made for. -/
def minWindow : Nat := 1024

def buffers : FrameForm → Buffers
  | present h =>
    let window := max h.windowSize minWindow
    let room := window + 2 * h.maxBlock + 2 * BlockRoom.margin
    ⟨max h.maxBlock WholeFrame.checksumBytes, h.size.elim room (min room)⟩
  | earlier h => ⟨h.maxBlock, h.bufferSize⟩

/-- Whether a buffer is begun again that holds so much.  That is not needed if there is room for
all of the content. -/
def restarts (f : FrameForm) (capacity held : Nat) : Bool :=
  match f with
  | present h => capacity < held + h.maxBlock && h.size.all (capacity < ·)
  | earlier h => capacity < held + h.maxBlock

end FrameForm

/-! ## Parts -/

inductive FramePart where
  | blockHeader
  /-- A block; of a plain one, that what is left of it. -/
  | block (h : BlockHeader)
  | checksum
  | skipped (size : Nat)
  | over

structure Frame where
  form : FrameForm
  /-- What comes next. -/
  part : FramePart
  memory : Memory
  window : Window
  /-- The size of the content so far. -/
  size : Nat
  hash : Hash

namespace Frame

def start (form : FrameForm) : Frame :=
  ⟨form, .blockHeader, .initial, .empty, 0, .empty⟩

/-- A frame that is skipped. -/
def skip (size : Nat) : Frame :=
  { start (.present ⟨0, some size, false⟩) with part := if size = 0 then .over else .skipped size }

def isOver (f : Frame) : Bool := f.part matches .over

/-- How many bytes are taken next if there are so many.  Plain blocks are taken as far as they
are there. -/
def needed (f : Frame) (available : Nat) : Nat :=
  match f.part with
  | .blockHeader => BlockHeader.width
  | .block h =>
    if h.kind = .plain ∧ f.form.isPresent then max 1 (min available h.size) else h.stored
  | .checksum => WholeFrame.checksumBytes
  | .skipped size => size
  | .over => 0

/-- Begins the buffer again if there might not be room for another block. -/
def restart (f : Frame) (capacity : Nat) : Frame :=
  if f.window.current.size ≠ 0 ∧ f.form.restarts capacity f.window.current.size then
    { f with window := f.window.restart }
  else f

/-- What follows a block. -/
def partAfter (f : Frame) (h : BlockHeader) : FramePart :=
  if !h.isLast then .blockHeader else if f.form.hasChecksum then .checksum else .over

/-- Takes the header of a block.  A block of no bytes is passed over, or ends the frame if it is
of an earlier version. -/
def takeBlockHeader? (f : Frame) (content : ByteArray) : Option Frame := do
  match f.form with
  | .present h =>
    let b ← BlockHeader.read.run' content
    if h.maxBlock < b.stored then none
    return { f with part := if b.stored = 0 then f.partAfter b else .block b }
  | .earlier h =>
    match ← BlockHeader.readEarlier.run' content with
    | .inl stated =>
      if h.hasChecksum ∧ (f.hash.value >>> 11).toNat % 0x400000 ≠ stated then none
      return { f with part := .over }
    | .inr b => return { f with part := if b.stored = 0 then .over else .block b }

/-- Appends the content of a block, for which there is so much room.  In earlier versions there
are no blocks of a repeated byte. -/
def unpack? (form : FrameForm) (h : BlockHeader) (capacity : Nat) (content : ByteArray)
    (m : Memory) (w : Window) : Option (Window × Memory) := do
  match h.kind, form with
  | .plain, _ => if capacity < content.size then none else return (w.append content, m)
  | .repeated, .present _ =>
    if capacity < h.size then none
    else return (w.append (repeated (content[0]?.getD 0) h.size), m)
  | .compressed, .present header => unpackBlock? ⟨header.maxBlock, capacity, false⟩ m content w
  | .compressed, .earlier header => header.version.unpackBlock? capacity m content w
  | .repeated, .earlier _ => none

/-- What a frame is like with more content.  The size of all content is checked at the end. -/
def grown? (f : Frame) (h : BlockHeader) (stored : Nat) (window : Window) (memory : Memory)
    (output : ByteArray) : Option Frame := do
  let size := f.size + output.size
  let isDone := h.kind ≠ .plain || stored = h.size
  match f.form with
  | .present header =>
    if header.maxBlock < output.size then none
    if isDone ∧ h.isLast ∧ header.size.any (· ≠ size) then none
  | .earlier _ => pure ()
  let part := if isDone then f.partAfter h else .block { h with size := h.size - stored }
  let hash := if f.form.hasChecksum then f.hash.add output else f.hash
  return { f with part, memory, window, size, hash }

/-- Takes the next bytes, as many as are needed, and tells what they are unpacked to. -/
def take? (f : Frame) (buffer : Nat) (content : ByteArray) : Option (ByteArray × Frame) := do
  match f.part with
  | .blockHeader => return (.empty, ← f.takeBlockHeader? content)
  | .block h =>
    let window := f.window
    let f := { f with window := .empty }
    let held := window.current.size
    let (window, memory) ← unpack? f.form h (buffer - held) content f.memory window
    let output := window.current.extract held window.current.size
    return (output, ← f.grown? h content.size window memory output)
  | .checksum =>
    let stated ← (readField WholeFrame.checksumBytes).run' content
    if stated ≠ f.hash.checksum then none
    return (.empty, { f with part := .over })
  | .skipped _ => return (.empty, { f with part := .over })
  | .over => none

end Frame

end DebugSymbols.Zstd
