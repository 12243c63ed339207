import DebugSymbols.Compression.Zstd.Frame

/-!
Frames one behind the other, from which bytes are asked for a portion at a time.  The input comes
in pieces of equal size, and whatever is asked for is answered from one piece if possible; so it
depends on the portions when a fault is noticed.
-/

namespace DebugSymbols.Zstd

structure Stream where
  input : ByteArray
  /-- Where the next part of the input begins. -/
  position : Nat
  /-- How much of the input has been taken, some of which may be held back. -/
  taken : Nat
  /-- The frame that is being unpacked. -/
  frame : Option Frame
  /-- The version of a frame whose header is not all there. -/
  begun : Option EarlierVersion
  /-- Whether a frame has ended here. -/
  isComplete : Bool
  buffers : Buffers
  /-- The buffers of earlier versions, made for the last of them. -/
  earlierBuffers : Option (EarlierVersion × Buffers)
  /-- What has been unpacked but not been asked for. -/
  pending : ByteArray

namespace Stream

def ofInput (input : ByteArray) : Stream :=
  ⟨input, 0, 0, none, none, false, ⟨0, 0⟩, none, .empty⟩

/-! ## Buffers -/

/-- Buffers are kept if both are large enough. -/
def adapt (old needed : Buffers) : Buffers :=
  if old.input < needed.input ∨ old.content < needed.content then needed else old

/-- Buffers of earlier versions are adapted one by one. -/
def adaptEarlier (old needed : Buffers) : Buffers :=
  ⟨max old.input needed.input, max old.content needed.content⟩

/-- The buffers for a frame. -/
def buffersOf (s : Stream) : FrameForm → Buffers
  | .present _ => s.buffers
  | .earlier h =>
    match s.earlierBuffers with
    | some (version, buffers) => if version = h.version then buffers else ⟨0, 0⟩
    | none => ⟨0, 0⟩

/-- Begins a frame whose first part is at a position. -/
def enter (s : Stream) (f : Frame) (position : Nat) : Stream :=
  let old := s.buffersOf f.form
  let s := { s with frame := some f, begun := none, position }
  match f.form with
  | .present _ => { s with buffers := adapt old f.form.buffers }
  | .earlier h => { s with earlierBuffers := some (h.version, adaptEarlier old f.form.buffers) }

/-! ## Steps -/

/-- What comes of an attempt to go on. -/
inductive Step where
  /-- There is too little input. -/
  | waiting (s : Stream)
  | onward (s : Stream)
  /-- A frame is over. -/
  | complete (s : Stream)

/-- Ends a frame before a position. -/
def leave (s : Stream) (position : Nat) : Stream :=
  { s with position, frame := none, begun := none, isComplete := true }

/-- The greatest window of a frame that is unpacked part by part. -/
def maxWindow : Nat := 1 <<< 27 + 1

/-- Begins a frame, which is unpacked at once if that is possible with so much room. -/
def enterPresent? (s : Stream) (h : FrameHeader) (available room position : Nat) : Option Step := do
  let whole := if s.taken = s.position ∧ h.size.any (· ≤ room) then
      WholeFrame.end? h s.input available position
    else none
  match whole with
  | some next =>
    let content ← WholeFrame.content? h room s.input position
    return .complete { s.leave next with pending := content }
  | none =>
    if maxWindow < h.windowSize then none
    return .onward (s.enter (.start (.present h)) position)

def enterEarlier? (s : Stream) (v : EarlierVersion) (available : Nat) : Option Step := do
  let fields := s.position + markBytes
  let descriptor := (s.input[fields]?.getD 0).toNat
  if available < fields + v.fieldBytes descriptor then return .waiting { s with begun := some v }
  let h ← (EarlierHeader.read v).runAt s.input fields
  return .onward (s.enter (.start (.earlier h)) (fields + v.fieldBytes descriptor))

/-- Reads the header of a frame.  The mark of an earlier version has to be in the same piece of
the input as the next byte. -/
def header? (s : Stream) (available room : Nat) : Option Step := do
  let mark := (s.input.extract s.position (min available (s.position + markBytes))).toList
  let fields := s.position + markBytes
  let isFrame := looksLikeFrame mark
  let isSkippable := looksSkippable mark
  if available ≤ fields then
    if isFrame || isSkippable then return .waiting s else none
  else if isFrame then
    let size := fieldBytes (s.input[fields]?.getD 0).toNat
    if available < fields + size then return .waiting s
    let h ← FrameHeader.ofFields? (← readHeaderFields.runAt s.input fields)
    s.enterPresent? h available room (fields + size)
  else if isSkippable then
    if available < fields + 4 then return .waiting s
    let size ← (readField 4).runAt s.input fields
    return .onward (s.enter (.skip size) (fields + 4))
  else if s.taken = s.position then
    s.enterEarlier? (← EarlierVersion.ofMark? mark) available
  else none

/-- Goes on with a frame.  An earlier version holds back no more than it has room for. -/
def continue? (s : Stream) (f : Frame) (available : Nat) : Option Step := do
  if f.isOver then return .complete (s.leave s.position)
  let buffers := s.buffersOf f.form
  let f := f.restart buffers.content
  let needed := f.needed (available - s.position)
  let next := s.position + needed
  if available < next then
    if s.position < available ∧ buffers.input < needed ∧ !f.form.isPresent then none
    else return .waiting { s with frame := some f }
  let (pending, f) ← f.take? buffers.content (s.input.extract s.position next)
  return .onward { s with position := next, frame := some f, pending }

def step? (s : Stream) (available room : Nat) : Option Step :=
  match s.frame, s.begun with
  | some f, _ => { s with frame := none }.continue? f available
  | none, some v => s.enterEarlier? v available
  | none, none => s.header? available room

/-! ## Portions -/

/-- Unpacks the input up to a position, until a frame is over or a portion is full. -/
def run? (available room : Nat) : Nat → ByteArray → Stream → Option (ByteArray × Stream)
  | 0, _, _ => none
  | fuel + 1, output, s =>
    let free := room - output.size
    let pending := s.pending
    if free < pending.size then
      some (output ++ pending.extract 0 free,
        { s with pending := pending.extract free pending.size, taken := s.position })
    else do
      let output := output ++ pending
      match ← { s with pending := .empty }.step? available (room - output.size) with
      | .waiting s => return (output, { s with taken := available })
      | .onward s => run? available room fuel output s
      | .complete s =>
        return (output ++ s.pending, { s with pending := .empty, taken := s.position })

/-- How large the pieces of the input are. -/
def pieceSize : Nat := 131075

/-- Where the piece of the input ends that comes next. -/
def pieceEnd (s : Stream) : Nat :=
  min s.input.size ((s.taken / pieceSize + 1) * pieceSize)

/-- Unpacks one piece of the input after the other, until there is something.  There has to be a
whole frame at least. -/
def fill? (room : Nat) : Nat → Stream → Option (ByteArray × Stream)
  | 0, _ => none
  | fuel + 1, s =>
    if s.input.size ≤ s.taken then if s.isComplete then some (.empty, s) else none
    else do
      let (output, s) ←
        { s with isComplete := false }.run? s.pieceEnd room (s.input.size + 4) .empty
      if output.isEmpty then fill? room fuel s else return (output, s)

/-- A portion of the content, which is empty only at the end.  What has been unpacked already is
handed out before any more input is taken. -/
def portion? (s : Stream) (room : Nat) : Option (ByteArray × Stream) := do
  let (output, s) ← s.run? s.taken room (s.input.size + 4) .empty
  if output.isEmpty then s.fill? room (s.input.size + 2) else return (output, s)

end Stream

/-! ## All of the content -/

/-- How large a portion is at first. -/
def firstPortion : Nat := 8192

/-- Content of that size and above is asked for in portions that do not grow. -/
def steadySize : Nat := 16777216

/-- The first bytes of the content, or as many as there are.  Portions are twice as large after
one that was full. -/
def portions? (size : Nat) : Nat → Nat → ByteArray → Stream → Option ByteArray
  | 0, _, _, _ => none
  | fuel + 1, most, output, s =>
    if size ≤ output.size then some output
    else do
      let (portion, s) ← s.portion? (min most (size - output.size))
      let grows := size < steadySize ∧ portion.size = most
      if portion.isEmpty then return output
      else portions? size fuel (if grows then 2 * most else most) (output ++ portion) s

/-- The first bytes of what is packed, or as many as there are.  Faults in front of them are
noticed, and those behind them as the portions will have it. -/
def unpack? (input : ByteArray) (size : Nat) : Option ByteArray :=
  portions? size (size + 1) firstPortion .empty (.ofInput input)

end DebugSymbols.Zstd
