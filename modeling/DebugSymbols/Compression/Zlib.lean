import DebugSymbols.Compression.Inflate

/-!
The zlib format: a deflate stream between a header of two bytes and a checksum.
-/

namespace DebugSymbols.Zlib

open Inflate

/-- How many bytes are unpacked at once, so that a fault spoils all of them. -/
def window : Nat := 32768

/-- How many bytes can be had in front of a fault.  What is unpacked at once ends where a window
or a portion of the input does. -/
def soundPart (s : State) : Nat :=
  max (window * ((s.output.size - 1) / window)) s.portionStart

/-- Two sums over the bytes, the second one over the values of the first, modulo a prime. -/
def adler32 (data : ByteArray) : Nat :=
  let (a, b) := data.foldl (fun (a, b) x =>
    let a := (a + x.toNat) % 65521
    (a, (b + a) % 65521)) (1, 0)
  65536 * b + a

/-- The header states the method and the size of the window, and refers to no dictionary. -/
def header : Run Unit := do
  let method ← bits 8
  let flags ← bits 8
  if (256 * method + flags) % 31 ≠ 0 ∨ flags / 32 % 2 = 1 ∨ method % 16 ≠ 8 ∨ 7 < method / 16 then
    throw .damaged

def checksum : Run Unit := do
  align
  let first ← bits 8
  let second ← bits 8
  let third ← bits 8
  let fourth ← bits 8
  let stated := ((first * 256 + second) * 256 + third) * 256 + fourth
  if stated ≠ adler32 (← get).output then throw .damaged

/-- Unpacks a stream.  Whatever follows its end is ignored. -/
def decompress (input : ByteArray) : Decompressed :=
  let run : Run Unit := do header; stream; checksum
  let (result, s) := run.run ⟨input, 0, .empty, 0⟩
  match result with
  | .ok _ => ⟨s.output, none⟩
  | .error .truncated => ⟨s.output, some (s.output.size + 1)⟩
  | .error .damaged => ⟨s.output, some (soundPart s + 1)⟩

/-- The first bytes of what is packed, or as many as there are. -/
def unpack? (input : ByteArray) (size : Nat) : Option ByteArray := (decompress input).take? size

end DebugSymbols.Zlib
