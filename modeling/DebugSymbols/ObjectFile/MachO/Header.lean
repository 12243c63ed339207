import DebugSymbols.Bytes.Cursor
import DebugSymbols.Machine

/-!
The headers of Mach-O files and their load commands.  The commands are read as long as they are
in order; whatever follows is ignored.
-/

namespace DebugSymbols.MachO

open Read

structure Layout where
  order : ByteOrder
  /-- Whether addresses take eight bytes. -/
  isWide : Bool

namespace Layout

def word (l : Layout) : Read Nat := number l.order 4

def address (l : Layout) : Read Nat := number l.order (if l.isWide then 8 else 4)

/-- The mark at the front of a file. -/
def read : Read Layout := do
  match ← number .big 4 with
  | 0xfeedface => return ⟨.big, false⟩
  | 0xfeedfacf => return ⟨.big, true⟩
  | 0xcefaedfe => return ⟨.little, false⟩
  | 0xcffaedfe => return ⟨.little, true⟩
  | _ => failure

end Layout

/-- The architectures that matter here. -/
inductive Processor where
  | arm
  | arm64
  | x86
  | x86_64
  | other
deriving DecidableEq, Repr

def Processor.ofCode : Nat → Processor
  | 12 => arm
  | 0x0100000c | 0x0200000c => arm64
  | 7 => x86
  | 0x01000007 => x86_64
  | _ => other

def Processor.machine? : Processor → Option Machine
  | x86 => some .x86
  | x86_64 => some .x86_64
  | _ => none

structure Header where
  layout : Layout
  processor : Processor
  kind : Nat
  commandCount : Nat
  commandBytes : Nat
  /-- Where the load commands begin. -/
  commandStart : Nat

def Header.read : Read Header := do
  let l ← Layout.read
  let processor ← l.word
  let _variant ← l.word
  let kind ← l.word
  let count ← l.word
  let size ← l.word
  let _flags ← l.word
  if l.isWide then skip 4
  return ⟨l, .ofCode processor, kind, count, size, ← position⟩

/-- Whether the file is to be linked yet. -/
def Header.isRelocatable (h : Header) : Bool := h.kind = 1

structure Command where
  code : Nat
  /-- All of its bytes, those of the code and the size included. -/
  content : ByteArray

/-- The command that comes next. -/
def Command.read (l : Layout) : Read Command := do
  let start ← get
  let code ← l.word
  let size ← l.word
  if size < 8 then failure
  set start
  return ⟨code, ← bytes size⟩

/-- The commands up to one that is out of order. -/
def Command.readAll (l : Layout) : Nat → Cursor → List Command
  | 0, _ => []
  | n + 1, c =>
    match (Command.read l).run c with
    | some (command, c) => command :: readAll l n c
    | none => []

/-- The load commands, none if they are not all in the file. -/
def Header.commands (h : Header) (file : ByteArray) : List Command :=
  match (bytes h.commandBytes).runAt file h.commandStart with
  | some content => Command.readAll h.layout h.commandCount ⟨content, 0⟩
  | none => []

end DebugSymbols.MachO
